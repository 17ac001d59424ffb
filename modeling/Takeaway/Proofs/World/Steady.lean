import Takeaway.Proofs.Flow.Quiet
import Takeaway.Proofs.World.Perform

/-!
What goes on in a steady world. Main statements: what attempts to send and the passing of time
keep, every wait keeps; so no wait has a taking of units refused or a message come to the notices
under way, and no action does but a taking, its count, and the handing over of a message that is
none.
-/

namespace Takeaway

/-- A message that may be handed over as a notice: it tells of units that arrived, or of a new
status. -/
def Envelope.IsNotice (x : Envelope) : Prop :=
  x.event = .ok .itemAdded ∨ x.event = .ok .statusUpdated

/-- An action that takes nothing and counts no refused taking; what it hands over is a notice. -/
def Action.IsPlain : Action → Prop
  | .take _ _ => False
  | .count s _ => s ≠ .takesRejected
  | .note x => x.IsNotice
  | _ => True

namespace World

variable {w w' w'' : World}

/-! ### What lasts while somebody waits -/

/-- What attempts to send and the counts of their failures keep, whatever becomes of the clock and
of the notices under way. -/
structure Lasts (P : World → Prop) : Prop where
  send : ∀ w x, P w → P (w.send x).2
  count : ∀ w s, s = .sendRetries ∨ s = .notificationsFailed → P w → P (w.count s 1)
  moved : ∀ w tick notices, P w → P { w with now := tick, notices := notices }

namespace Lasts

variable {P : World → Prop} (h : Lasts P)
include h

theorem turn (x : Envelope) (left : Nat) (hw : P w) : P (w.turn x left).1 := by
  induction left generalizing w with
  | zero =>
    have hsend := h.send w x hw
    rcases heq : w.send x with ⟨f | ⟨⟩, w₁⟩ <;> rw [heq] at hsend <;> simp only [World.turn, heq]
    · exact h.count w₁ _ (.inr rfl) hsend
    · exact hsend
  | succ left ih =>
    have hsend := h.send w x hw
    rcases heq : w.send x with ⟨f | ⟨⟩, w₁⟩ <;> rw [heq] at hsend <;> simp only [World.turn, heq]
    · split
      · have hretry := h.count w₁ _ (.inl rfl) hsend
        split
        · exact ih hretry
        · exact hretry
      · exact h.count w₁ _ (.inr rfl) hsend
    · exact hsend

theorem turns (l : List Notice) (hw : P w) : P (w.turns l) := by
  induction l generalizing w with
  | nil => exact hw
  | cons n r ih =>
    have hturn := h.turn n.envelope n.left hw
    unfold World.turns
    rcases heq : w.turn n.envelope n.left with ⟨w₁, _ | s⟩ <;> rw [heq] at hturn
    · exact ih hturn
    · exact ih (h.moved w₁ _ _ hturn)

theorem reach (tick : Nat) (hw : P w) : P (w.reach tick) := h.moved w _ w.notices hw

theorem wake (n : Nat) (hw : P w) : P (w.wake n) := h.turns _ (h.moved w w.now _ hw)

theorem advanceWhile (test : World → Bool) (turns : Nat) (hw : P w) :
    P (World.advanceWhile test turns w) := by
  induction turns generalizing w with
  | zero => exact hw
  | succ turns ih =>
    unfold World.advanceWhile
    split
    · refine ih ?_
      unfold advance
      split
      · exact hw
      · exact h.wake _ (h.reach _ hw)
    · exact hw

theorem passWhile (test : World → Bool) (hw : P w) : P (w.passWhile test) :=
  h.advanceWhile _ _ (h.turns _ (h.moved w w.now _ hw))

/-- **What attempts to send and the passing of time keep, a wait keeps.** -/
theorem await (rank : Rank) (wait : Wait) (limit : Option Nat) (hw : P w) :
    P (w.await rank wait limit).2 := by
  unfold World.await
  split
  · exact hw
  · exact h.moved _ _ _ (h.wake _ (h.reach _ (h.passWhile _ hw)))
  · show P w.passForRoom
    unfold passForRoom
    split
    · exact hw
    · exact h.passWhile _ hw
  · exact hw

end Lasts

/-! ### Steady worlds -/

/-- How often a taking of units was refused. -/
def rejections (w : World) : Nat := w.metrics.value .takesRejected

theorem rejections_count {s : Series} (hs : s ≠ .takesRejected) (w : World) (n : Nat) :
    (w.count s n).rejections = w.rejections := by
  show (w.metrics.count s n).value _ = _
  rw [Metrics.value_count, if_neg (Ne.symm hs)]
  rfl

theorem lasts_rejections (k : Nat) : Lasts fun w => w.rejections = k where
  send _ _ hw := hw
  count w s hs hw := by
    refine (rejections_count ?_ w 1).trans hw
    rcases hs with rfl | rfl <;> simp
  moved _ _ _ hw := hw

/-- From the one world to the other no taking of units was refused, and nothing came to the notices
under way that is none. -/
structure Steady (w w' : World) : Prop where
  rejections : w'.rejections = w.rejections
  notices : ∀ x ∈ w'.underWay, x ∈ w.underWay ∨ x.IsNotice

namespace Steady

protected theorem refl (w : World) : w.Steady w := ⟨rfl, fun _ hx => .inl hx⟩

protected theorem trans (h : w.Steady w') (h' : w'.Steady w'') : w.Steady w'' where
  rejections := h'.rejections.trans h.rejections
  notices x hx := (h'.notices x hx).elim (h.notices x) .inr

end Steady

theorem steady_of_same (hm : w'.metrics = w.metrics) (hn : w'.notices = w.notices) :
    w.Steady w' := by
  refine ⟨by unfold rejections; rw [hm], fun x hx => .inl ?_⟩
  unfold underWay at hx ⊢
  rwa [hn] at hx

theorem steady_count {s : Series} (hs : s ≠ .takesRejected) (w : World) (n : Nat) :
    w.Steady (w.count s n) := ⟨rejections_count hs w n, fun _ hx => .inl hx⟩

theorem steady_await (w : World) (rank : Rank) (wait : Wait) (limit : Option Nat) :
    w.Steady (w.await rank wait limit).2 where
  rejections := (lasts_rejections w.rejections).await rank wait limit rfl
  notices x hx := by
    have hle := (w.aside_await rank wait limit).sent_le
    rw [add_zero] at hle
    exact .inl (Multiset.mem_of_le hle (Multiset.mem_add.2 (.inr hx)))

theorem steady_settle (w : World) : w.Steady w.settle where
  rejections := (lasts_rejections w.rejections).passWhile _ rfl
  notices x hx := by
    have hle := (w.aside_passWhile fun _ => true).sent_le
    rw [add_zero] at hle
    exact .inl (Multiset.mem_of_le hle (Multiset.mem_add.2 (.inr hx)))

/-- **A plain action keeps the world steady.** -/
theorem steady_perform (w : World) {a : Action} (ha : a.IsPlain) : w.Steady (w.perform a).2 := by
  cases a with
  | take item q => cases ha
  | count s n => exact steady_count ha w n
  | note x =>
    refine ⟨rfl, fun y hy => ?_⟩
    have hle := (aside_note w x).sent_le
    rcases Multiset.mem_add.1 (Multiset.mem_of_le hle (Multiset.mem_add.2 (.inr hy))) with hy | hy
    · exact .inl hy
    · rw [Multiset.mem_singleton.1 hy]
      exact .inr ha
  | nextNumber =>
    rcases w.nextNumber_cases with ⟨f, heq⟩ | heq <;> rw [heq]
    · exact Steady.refl w
    · exact steady_of_same rfl rfl
  | save o =>
    rcases w.save_cases o with ⟨f, heq⟩ | heq <;> rw [heq]
    · exact Steady.refl w
    · exact steady_of_same rfl rfl
  | add item q =>
    show w.Steady (w.add item q)
    unfold add
    dsimp only
    split
    · exact (steady_count (by simp) w 1).trans (steady_of_same rfl rfl)
    · exact steady_of_same rfl rfl
  | _ => exact steady_of_same rfl rfl

/-! ### Untouched worlds -/

/-- The one world becomes the other by nothing but counts, keys and the clock. -/
structure Untouched (w w' : World) : Prop where
  store : w'.store = w.store
  stock : w'.stock = w.stock
  broker : w'.broker = w.broker
  notices : w'.notices = w.notices

namespace Untouched

protected theorem refl (w : World) : w.Untouched w := ⟨rfl, rfl, rfl, rfl⟩

protected theorem trans (h : w.Untouched w') (h' : w'.Untouched w'') : w.Untouched w'' :=
  ⟨h'.store.trans h.store, h'.stock.trans h.stock, h'.broker.trans h.broker,
    h'.notices.trans h.notices⟩

theorem aside (h : w.Untouched w') : Aside 0 w w' :=
  aside_of_same h.store h.stock h.broker h.notices

end Untouched

theorem untouched_count (w : World) (s : Series) (n : Nat) : w.Untouched (w.count s n) :=
  ⟨rfl, rfl, rfl, rfl⟩

end World

end Takeaway
