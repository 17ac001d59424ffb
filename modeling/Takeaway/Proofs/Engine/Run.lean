import Takeaway.Proofs.Coverage.Sweep
import Takeaway.Proofs.Engine.Job

/-!
What the jobs of the engine come to when nobody else is at work. Main statements: every job but
that of the kitchen only serves orders from the stock, and the kitchen adds to the stock what it
was asked for and announces it.
-/

namespace Takeaway

open World (Aside Mail Pass Orderly)

variable {rank : World.Rank} {w : World}

/-! ### Adding to the stock -/

/-- Lines were added to the stock, and those of some units are announced. -/
structure Supplied (lines : List Item) (new : Multiset Envelope) (w w' : World) : Prop where
  mail : Mail new w w'
  store : w'.store = w.store
  stock : w'.stock = w.stock.addAll lines
  announced : w.stock.announces = true →
    ∀ i ∈ lines, i.quantity.units ≠ 0 → ∃ time, .itemAdded i time ∈ new

namespace Supplied

variable {w₁ w' : World} {l l' : List Item} {a b : Multiset Envelope}

theorem of_aside (h : Aside a w w') : Supplied [] a w w' :=
  ⟨h.toMail, h.store, h.stock, fun _ i hi => by cases hi⟩

theorem append (h : Supplied l a w w₁) (h' : Supplied l' b w₁ w') :
    Supplied (l ++ l') (a + b) w w' where
  mail := h.mail.trans h'.mail
  store := h'.store.trans h.store
  stock := by rw [h'.stock, h.stock, Stock.addAll_append]
  announced ha i hi hq := by
    rcases List.mem_append.1 hi with hi | hi
    · obtain ⟨time, ht⟩ := h.announced ha i hi hq
      exact ⟨time, Multiset.mem_add.2 (.inl ht)⟩
    · have ha₁ : w₁.stock.announces = true := by
        rw [h.stock, Stock.announces_addAll]
        exact ha
      obtain ⟨time, ht⟩ := h'.announced ha₁ i hi hq
      exact ⟨time, Multiset.mem_add.2 (.inr ht)⟩

theorem trans_aside (h : Supplied l a w w₁) (h' : Aside 0 w₁ w') : Supplied l a w w' := by
  have := h.append (of_aside h')
  rwa [List.append_nil, add_zero] at this

/-- A line of no units adds nothing. -/
theorem skip {i : Item} (h0 : i.quantity.units = 0) (h : Supplied l a w w') :
    Supplied (i :: l) a w w' where
  mail := h.mail
  store := h.store
  stock := by rw [h.stock, Stock.addAll, if_pos h0]
  announced ha j hj hq := by
    rcases List.mem_cons.1 hj with rfl | hj
    · exact absurd h0 hq
    · exact h.announced ha j hj hq

end Supplied

theorem ends_addUnits (item : String) {q : Quantity} (hq : q.units ≠ 0) :
    (addUnits item q).Ends rank w fun _ w' => ∃ new, Supplied [⟨item, q⟩] new w w' := by
  obtain ⟨counts, heq⟩ := w.add_eq item q
  have hstock : w.stock.addAll [⟨item, q⟩] = w.stock.add item q := if_neg hq
  unfold addUnits
  refine Flow.Ends.bind (p := fun b w' => b = (w.stock.announces && decide (0 < q.units)) ∧
    w' = { w with stock := w.stock.add item q, metrics := counts }) (Flow.ends_ask ?_) ?_
  · rw [heq]
    exact ⟨rfl, rfl⟩
  rintro b w₁ ⟨hb, hw₁⟩
  have hmail : Mail 0 w w₁ := by rw [hw₁]; exact World.mail_of_same rfl rfl
  have hadded : w₁.store = w.store ∧ w₁.stock = w.stock.addAll [⟨item, q⟩] := by
    rw [hw₁, hstock]
    exact ⟨rfl, rfl⟩
  cases b with
  | false =>
    refine Flow.ends_done ⟨0, hmail, hadded.1, hadded.2, fun ha => ?_⟩
    rw [ha, Bool.true_and, eq_comm, decide_eq_false_iff_not] at hb
    omega
  | true =>
    refine Flow.Ends.bind (p := fun _ w' => w' = w₁) (Flow.ends_ask rfl) ?_
    rintro time w₁ rfl
    refine (ends_notify _).imp fun _ w' h => ?_
    refine ⟨_, hmail.zero_trans h.toMail, h.store.trans hadded.1, h.stock.trans hadded.2, ?_⟩
    intro _ i hi _
    rw [List.mem_singleton.1 hi]
    exact ⟨time, Multiset.mem_singleton_self _⟩

/-- An addition is refused, or it is added to the stock. -/
theorem Engine.ends_addInventory (e : Engine) (item : String) (q : Quantity) :
    WorkEnds rank (e.addInventory item q) w fun r w' =>
      r.isOk = false ∧ w' = w ∨ r.isOk = true ∧ ∃ new, Supplied [⟨item, q⟩] new w w' := by
  unfold addInventory
  refine workEnds_bind_ofRefusal (fun b _ => ?_) fun f _ => .inl ⟨rfl, rfl⟩
  dsimp only
  split
  · refine workEnds_throw ?_
    exact .inl ⟨rfl, rfl⟩
  split
  · refine workEnds_throw ?_
    exact .inl ⟨rfl, rfl⟩
  · next hq =>
    refine Flow.Ends.bind_lift (ends_addUnits item hq) ?_
    rintro _ w₁ ⟨new, h⟩
    exact workEnds_lift (Flow.ends_ask (.inr ⟨rfl, new, h⟩))

/-! ### The kitchen -/

namespace Kitchen

theorem ends_cook (p : List (Item × Span)) :
    (cook p).Ends rank w fun _ w' => ∃ new, Supplied (p.map (·.1)) new w w' := by
  induction p generalizing w with
  | nil => exact Flow.ends_done ⟨0, Supplied.of_aside (Aside.refl w)⟩
  | cons l r ih =>
    obtain ⟨i, s⟩ := l
    unfold cook
    split
    · next hq =>
      refine Flow.Ends.bind (Flow.Quiet.ends (quiet_pause s)) ?_
      rintro _ w₁ ⟨a, h₁⟩
      refine Flow.Ends.bind (ends_addUnits i.name hq) ?_
      rintro _ w₂ ⟨b, h₂⟩
      refine ih.imp ?_
      rintro _ w₃ ⟨new, h₃⟩
      exact ⟨_, ((Supplied.of_aside h₁).append h₂).append h₃⟩
    · next hq =>
      refine ih.imp ?_
      rintro _ w' ⟨new, h⟩
      exact ⟨new, h.skip (Decidable.not_not.1 hq)⟩

/-- A plan is for the lines that were asked for. -/
theorem plan_lines {menu : Menu} {scale : Double} {lines : List Item} {p : List (Item × Span)}
    (h : plan menu scale lines = .ok p) : p.map (·.1) = lines := by
  unfold plan at h
  induction lines generalizing p with
  | nil => cases h; rfl
  | cons i r ih =>
    rw [List.mapM_cons] at h
    obtain ⟨l, hl, h⟩ := Except.of_bind_ok h
    obtain ⟨q, hq, h⟩ := Except.of_bind_ok h
    cases h
    rw [List.map_cons, ih hq]
    cases hs : preparation menu scale i.name with
    | error f => rw [hs] at hl; cases hl
    | ok s => rw [hs] at hl; cases hl; rfl

/-- There is a plan for items that are on the menu. -/
theorem plan_of_known {menu : Menu} (scale : Double) {lines : List Item}
    (h : ∀ i ∈ lines, ∃ b, menu.isInstant i.name = .ok b) :
    ∃ p, plan menu scale lines = .ok p := by
  unfold plan
  induction lines with
  | nil => exact ⟨[], rfl⟩
  | cons i r ih =>
    obtain ⟨⟨b, hb⟩, hr⟩ := List.forall_mem_cons.1 h
    obtain ⟨p, hp⟩ := ih hr
    unfold Menu.isInstant at hb
    rw [List.mapM_cons, hp]
    unfold preparation Menu.preparation
    cases he : menu.entry i.name with
    | error f => rw [he] at hb; cases hb
    | ok entry => exact ⟨_, rfl⟩

/-- **The kitchen adds what it was asked for to the stock**, unless it has no plan for it, and then
it does nothing. -/
theorem ends_prepare (menu : Menu) (scale : Double) (lines : List Item) :
    WorkEnds rank (prepare menu scale lines) w fun r w' =>
      (∃ p, plan menu scale lines = .ok p) ∧ r = .ok () ∧ (∃ new, Supplied lines new w w') ∨
      (∃ f, plan menu scale lines = .error f) ∧ (∃ f, r = .error f) ∧ w' = w := by
  unfold prepare
  cases hp : plan menu scale lines with
  | error f => exact .inr ⟨⟨f, rfl⟩, ⟨_, rfl⟩, rfl⟩
  | ok p =>
    have hlines := plan_lines hp
    refine workEnds_lift ((ends_cook p).imp ?_)
    rintro _ w' ⟨new, h⟩
    rw [hlines] at h
    exact .inl ⟨⟨p, rfl⟩, rfl, new, h⟩

end Kitchen

/-! ### Arrivals and collections -/

namespace Engine

theorem ends_restockAll {c : Coverage} (d : Deadline) (hw : w.Orderly c.menu)
    (items : List String) :
    WorkEnds rank (restockAll c d items) w fun r w' => ∃ new, Pass c.menu new w w' ∧
      (w.Flowing → w.store.store.answers = true → r = .ok () ∧
        ∀ i ∈ items, c.menu.isInstant i = .ok false → w'.onHand i = 0 ∨ w'.short i = 0) := by
  induction items generalizing w with
  | nil =>
    exact workEnds_pure ⟨0, Pass.of_aside hw (Aside.refl w), fun _ _ => ⟨rfl, by simp⟩⟩
  | cons item r ih =>
    unfold restockAll
    refine Flow.Ends.bind_lift (Coverage.ends_restock d hw item) ?_
    rintro res w₁ ⟨new, h₁, hok⟩
    have hnext : WorkEnds rank (restockAll c d r) w₁ fun r' w' => ∃ new, Pass c.menu new w w' ∧
        (w.Flowing → w.store.store.answers = true → r' = .ok () ∧ ∀ i ∈ item :: r,
          c.menu.isInstant i = .ok false → w'.onHand i = 0 ∨ w'.short i = 0) := by
      refine (ih h₁.orderly).imp ?_
      rintro r' w₂ ⟨new₂, h₂, hok₂⟩
      refine ⟨_, h₁.trans h₂, fun hf ha => ?_⟩
      obtain ⟨hr, hleft⟩ := hok₂ (h₁.kept.flowing hf) (h₁.kept.answers.trans ha)
      refine ⟨hr, List.forall_mem_cons.2 ⟨fun hi => ?_, hleft⟩⟩
      have hstock := h₂.onHand_le hi
      have hshort := h₂.short_le h₁.orderly item
      rcases (hok hf ha).2 hi with h0 | h0
      · exact .inl (by omega)
      · exact .inr (by omega)
    split
    · exact hnext
    · exact hnext
    · next f hne =>
      refine workEnds_throw ⟨new, h₁, fun hf ha => ?_⟩
      rcases (hok hf ha).1 with ⟨outs, h⟩ | h
      · cases h
      · cases h
        exact absurd rfl (hne _)

theorem ends_handOver {m : Menu} (hw : w.Orderly m) (n : OrderNumber) (d : Deadline) :
    WorkEnds rank (handOver n d) w fun _ w' => ∃ new, Pass m new w w' := by
  have hrefl : ∃ new, Pass m new w w := ⟨0, Pass.of_aside hw (Aside.refl w)⟩
  unfold handOver
  refine WorkEnds.bind (Coverage.ends_load d hw.script n) ?_ (by rintro f w ⟨rfl, -⟩; exact hrefl)
  rintro o w ⟨rfl, hload⟩
  obtain ⟨ha, ho⟩ := (hload o).1 rfl
  obtain ⟨hsound, rfl⟩ := hw.sound n o ho
  refine workEnds_bind_ofRefusal (fun new hcollect => ?_) fun _ _ => hrefl
  obtain ⟨hs, hnum, hitems, hpacked⟩ := hsound.collect hcollect
  have hsame : ∀ i, new.packedOf i = o.packedOf i := fun i => by
    unfold Order.packedOf
    rw [hpacked]
  have hwritten : Pass m 0 w (w.written new) := World.pass_replaced (s := w.stock) hw
    ⟨ho, ⟨hnum, hitems, fun i => Nat.le_of_eq (hsame i).symm⟩, hs, rfl, fun i _ => by
      rw [hsame]; rfl⟩
  split
  · refine WorkEnds.bind (ends_saveOrder_written hw.script ha new d) ?_ (by rintro _ _ ⟨⟨⟩, -⟩)
    rintro _ w₁ ⟨-, rfl⟩
    refine Flow.Ends.bind_lift (p := fun _ w' => w' = w.written new) (Flow.ends_ask rfl) ?_
    rintro time w₁ rfl
    refine workEnds_lift ((ends_notify _).imp fun _ w' h => ?_)
    exact ⟨_, hwritten.zero_trans (Pass.of_aside hwritten.orderly h)⟩
  · exact workEnds_pure hrefl

/-! ### Jobs -/

variable {e : Engine}

/-- What a job comes to: orders are served from the stock, or the kitchen adds to the stock the
lines that it has a plan for. -/
inductive Worked (e : Engine) (j : Job) (w : World) (r : Except Fault Unit) (w' : World) : Prop
  | served (new : Multiset Envelope) (h : Pass e.menu new w w')
      (hr : ∀ lines, j = .prepare lines → (∃ f, r = .error f) ∧
        ∃ f, Kitchen.plan e.menu e.settings.timeScale lines = .error f)
  | supplied (lines : List Item) (new : Multiset Envelope) (hj : j = .prepare lines)
      (hr : r = .ok ()) (hp : ∃ p, Kitchen.plan e.menu e.settings.timeScale lines = .ok p)
      (h : Supplied lines new w w')

theorem ends_work (hw : w.Orderly e.menu) (j : Job) (d : Deadline) :
    WorkEnds rank (j.work e d) w (Worked e j w) := by
  have hserved : ∀ {r w'}, (∀ lines, j ≠ .prepare lines) → (∃ new, Pass e.menu new w w') →
      Worked e j w r w' := fun hj ⟨new, h⟩ => .served new h fun lines heq => absurd heq (hj lines)
  cases j with
  | cover n =>
    refine WorkEnds.bind (e.coverage.ends_coverNew d hw n) ?_ ?_
    · exact fun _ w' h => workEnds_pure (hserved (by simp) h)
    · exact fun _ w' h => hserved (by simp) h
  | restock lines =>
    refine (ends_restockAll (c := e.coverage) d hw _).imp ?_
    rintro r w' ⟨new, h, -⟩
    exact hserved (by simp) ⟨new, h⟩
  | sweep =>
    refine WorkEnds.bind (e.coverage.ends_sweep d hw) ?_ ?_
    · rintro _ w' ⟨new, h, -⟩
      exact workEnds_pure (hserved (by simp) ⟨new, h⟩)
    · rintro _ w' ⟨new, h, -⟩
      exact hserved (by simp) ⟨new, h⟩
  | handOver n => exact (ends_handOver hw n d).imp fun r w' h => hserved (by simp) h
  | record s =>
    have hq : QuietWork (Flow.count (.statusUpdates s) : Work Unit) := quietWork_lift (quiet_count _)
    refine hq.ends.imp ?_
    rintro r w' ⟨new, h⟩
    exact hserved (by simp) ⟨new, Pass.of_aside hw h⟩
  | prepare lines =>
    refine (Kitchen.ends_prepare e.menu e.settings.timeScale lines).imp ?_
    rintro r w' (⟨hp, hr, new, h⟩ | ⟨hp, hr, rfl⟩)
    · exact .supplied lines new rfl hr hp h
    · refine .served 0 (Pass.of_aside hw (Aside.refl w')) ?_
      rintro _ ⟨⟩
      exact ⟨hr, hp⟩

/-- Around the work of a job nothing but counts and the clock is touched. -/
theorem ends_flow {j : Job} {p : Except Fault Unit → World → Prop}
    (h : ∀ d, WorkEnds rank (j.work e d) w p) :
    (j.flow e).Ends rank w fun r w' => ∃ res w₁, p res w₁ ∧ Aside 0 w₁ w' ∧
      r = ⟨j.kind, (Ending.finished res).fault?⟩ := by
  unfold Job.flow
  refine Flow.Ends.bind (p := fun _ w' => w' = w) (Flow.ends_ask rfl) ?_
  rintro d w rfl
  refine Flow.Ends.bind (h d) ?_
  intro res w₁ hres
  refine Flow.Ends.bind (p := fun _ w' => Aside 0 w₁ w')
    (Flow.ends_ask (World.aside_count w₁ _ _)) ?_
  intro _ w₂ h₂
  refine Flow.Ends.bind (p := fun _ w' => Aside 0 w₁ w')
    (Flow.ends_ask (h₂.trans_zero (World.aside_count w₂ _ _))) ?_
  intro _ w₃ h₃
  exact Flow.ends_done ⟨res, w₁, hres, h₃, rfl⟩

/-- A message is rejected, or its job is done. -/
theorem ends_response {m : Envelope} {p : Job → Except Fault Unit → World → Prop}
    (h : ∀ j, e.job m = .ok j → ∀ d, WorkEnds rank (j.work e d) w (p j)) :
    (e.response m).Ends rank w fun r w' =>
      (∃ x, e.job m = .error x ∧ r = x.result ∧ Aside 0 w w') ∨
      ∃ j, e.job m = .ok j ∧ ∃ res w₁, p j res w₁ ∧ Aside 0 w₁ w' ∧
        r = ⟨j.kind, (Ending.finished res).fault?⟩ := by
  unfold response
  cases hj : e.job m with
  | error x =>
    refine Flow.Ends.bind (p := fun _ w' => Aside 0 w w')
      (Flow.ends_ask (World.aside_count w _ _)) ?_
    intro _ w' h'
    exact Flow.ends_done (.inl ⟨x, rfl, rfl, h'⟩)
  | ok j => exact (ends_flow (h j hj)).imp fun r w' hr => .inr ⟨j, rfl, hr⟩

end Engine

end Takeaway
