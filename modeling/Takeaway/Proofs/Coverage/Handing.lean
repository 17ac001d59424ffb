import Takeaway.Proofs.Coverage.Visits

/-!
An item that is handed out when sending turns out in any way. Main statement: every order is given
its portion, however sending turns out; for a request that fails, and so puts an end to it, is made
only when there is no unit left to hand out.
-/

namespace Takeaway

open World (Orderly)

variable {w : World} {item : String} {o candidate : Order} {orders : List Order}

namespace Coverage

variable {c : Coverage} (d : Deadline)

/-! ### The flow -/

/-- What is done about a candidate: nothing when there are no units, nothing when it misses none,
and else it is covered. -/
theorem anyhow_handOut_cons (hw : w.Orderly c.menu) (ha : w.store.store.answers = true)
    (ho : w.orders.find? candidate.number = some o) (hreq : o.requests item = true)
    {q : World → Prop} (hstop : w.onHand item = 0 → q w)
    (hskip : o.short item = 0 →
      WorkAnyhow (c.handOut d item orders) w fun _ _ _ w' => q w')
    (hserve : 0 < o.short item → w.onHand item ≠ 0 → WorkAnyhow (do
      let outcome ← c.cover d o [item]
      return outcome :: (← c.handOut d item orders)) w fun _ _ _ w' => q w') :
    WorkAnyhow (c.handOut d item (candidate :: orders)) w fun _ _ _ w' => q w' := by
  have hsound := (hw.sound _ o ho).1
  have hlook : (Flow.ask (.onHand item)).Anyhow w fun _ _ q w' =>
      q = w.stock.onHand item ∧ w' = w := Flow.anyhow_ask rfl ⟨rfl, rfl⟩
  unfold handOut
  refine Flow.Anyhow.bind_lift hlook ?_
  rintro _ _ _ w ⟨rfl, rfl⟩
  split
  · next h0 => exact workAnyhow_pure (hstop h0)
  next hstock =>
  refine WorkAnyhow.bind (anyhow_load hw candidate.number d) ?_ ?_
  · rintro _ _ o' w ⟨-, -, rfl, hload⟩
    obtain ⟨-, ho'⟩ := (hload o').1 rfl
    rw [ho] at ho'
    cases ho'
    have hon : ∀ missing : Int, missing = o.short item →
        WorkAnyhow (if missing ≤ 0 then c.handOut d item orders else do
          let outcome ← c.cover d o [item]
          return outcome :: (← c.handOut d item orders)) w fun _ _ _ w' => q w' := by
      rintro _ rfl
      split
      · exact hskip (by omega)
      · exact hserve (by omega) hstock
    split
    · have hmissing : o.missing? item = .ok (o.missing item) := if_pos hreq
      rw [hmissing]
      exact hon _ (hsound.missing_eq item)
    · next hclosed =>
      have h0 := hsound.short_eq_zero (Bool.eq_false_iff.2 hclosed) item
      exact hon 0 (by omega)
  · rintro _ _ f w ⟨-, -, rfl, hload⟩
    cases (hload o).2 ⟨ha, ho⟩

theorem anyhow_handOut (hw : w.Orderly c.menu) (ha : w.store.store.answers = true)
    (hitem : c.menu.isInstant item = .ok false) (h : InLine item orders w) :
    WorkAnyhow (c.handOut d item orders) w fun _ _ _ w' => Handed item w w' := by
  induction orders generalizing w with
  | nil => exact workAnyhow_pure (Handed.of_spent h.spent)
  | cons candidate r ih =>
    obtain ⟨o, ho, hreq⟩ := (List.forall_mem_cons.1 h.stored).1
    obtain ⟨-, hnumber⟩ := hw.sound _ o ho
    refine anyhow_handOut_cons d hw ha ho hreq ?_ ?_ ?_
    · exact fun h0 => Handed.of_spent (.inl h0)
    · intro h0
      apply ih hw ha
      apply h.skip
      rw [World.shortOf_eq ho]
      exact h0
    · intro hshort hstock
      rw [← hnumber] at ho
      have hlower : ∀ k < o.number, w.shortOf k item = 0 := hnumber ▸ h.lower hstock
      refine WorkAnyhow.bind (anyhow_cover d hw ha ho fun i hi => ?_) ?_ ?_
      · rw [List.mem_singleton.1 hi]
        exact hreq
      · rintro _ _ out w₁ ⟨v, -, hwent⟩
        have hpass := World.pass_covered [item] hw ho
        have hrest := ih (hwent.left.orderly hpass.orderly)
          (hwent.left.answers (hpass.kept.answers.trans ha))
          (h.serve hw ho hnumber hitem hwent.left)
        refine WorkAnyhow.bind hrest ?_ ?_
        · intro _ _ outs w₂ h₂
          exact workAnyhow_pure (h₂.cons hw ho hitem hlower hwent.left)
        · intro _ _ f w₂ h₂
          exact h₂.cons hw ho hitem hlower hwent.left
      · rintro _ _ f w₁ ⟨v, hv, hwent⟩
        -- a request was tried in vain, so that no unit is left for those behind
        have hsome : (filled c.menu [item] o w.stock).requests ≠ [] := by
          have hattempted := hwent.attempted
          have hresult := hwent.result
          cases hf : v.fault with
          | none =>
            rw [hf] at hresult
            cases hresult
          | some g =>
            obtain ⟨i, rest, hrequests⟩ := hattempted.sent_prefix.2 g hf
            rw [hv] at hrequests
            rw [hrequests]
            simp
        have hnone := onHand_of_requests hw ho hitem hlower hsome
        rw [← hwent.left.onHand] at hnone
        exact (Handed.of_spent (.inl hnone)).cons hw ho hitem hlower hwent.left

/-- **Handing out an item gives each order its portion, however sending turns out**; of an item that
is handed out at once, and of one that is not on the menu, nothing is handed out. -/
theorem anyhow_restock (hw : w.Orderly c.menu) (ha : w.store.store.answers = true)
    (item : String) :
    WorkAnyhow (c.restock d item) w fun _ _ _ w' =>
      if c.menu.isInstant item = .ok false then Handed item w w' else w' = w := by
  unfold restock
  refine workAnyhow_bind_ofRefusal ?_ ?_
  · intro b hb
    cases b with
    | true =>
      apply workAnyhow_pure
      rw [hb, if_neg (by simp)]
    | false =>
      simp only [hb, Bool.false_eq_true, if_true, if_false]
      refine WorkAnyhow.bind (anyhow_search hw ha _ d) ?_ (by rintro _ _ _ _ ⟨-, -, ⟨⟩, -⟩)
      rintro _ _ _ w ⟨-, -, ⟨⟩, rfl⟩
      exact anyhow_handOut d hw ha hb (inLine_waiting hw item)
  · intro f hf
    rw [hf, if_neg (by simp)]

end Coverage

end Takeaway
