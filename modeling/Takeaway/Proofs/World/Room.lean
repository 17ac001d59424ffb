import Mathlib.Algebra.Order.Ring.Nat
import Takeaway.World.Notices

/-!
How long notices stay under way. Main statements: whatever the attempts to send come to, time that
passes for notices makes fewer turns left to take; so who waits for room gets it, and when all have
settled none is under way.
-/

namespace Takeaway

theorem perm_bedded {α : Type} (s : Nat × α) (l : List (Nat × α)) : (bedded s l).Perm (s :: l) := by
  induction l with
  | nil => exact .refl _
  | cons t r ih =>
    unfold bedded
    split
    · exact .refl _
    · exact (ih.cons t).trans (.swap s t r)

/-! ### Turns that are left -/

/-- The most turns that sleepers can take. -/
def turnsOf (l : List (Nat × Notice)) : Nat := l.foldr (fun s k => s.2.left + 1 + k) 0

theorem turnsOf_cons (s : Nat × Notice) (l : List (Nat × Notice)) :
    turnsOf (s :: l) = s.2.left + 1 + turnsOf l := rfl

theorem turnsOf_append (l l' : List (Nat × Notice)) :
    turnsOf (l ++ l') = turnsOf l + turnsOf l' := by
  induction l with
  | nil => exact (Nat.zero_add _).symm
  | cons s l ih =>
    rw [List.cons_append, turnsOf_cons, turnsOf_cons, ih]
    omega

theorem turnsOf_bedded (s : Nat × Notice) (l : List (Nat × Notice)) :
    turnsOf (bedded s l) = s.2.left + 1 + turnsOf l := by
  induction l with
  | nil => rfl
  | cons t l ih =>
    unfold bedded
    split
    · rfl
    · rw [turnsOf_cons, turnsOf_cons, ih]
      omega

/-- Sleepers can take one turn each, and then as many as their notices may be tried again. -/
theorem turnsOf_eq (l : List (Nat × Notice)) :
    turnsOf l = (l.map fun s => s.2.left).sum + l.length := by
  induction l with
  | nil => rfl
  | cons s l ih =>
    rw [turnsOf_cons, ih, List.map_cons, List.sum_cons, List.length_cons]
    omega

namespace World

variable {w : World}

/-- A turn leaves the notices under way as they are; the one whose turn it was may go to sleep with
fewer attempts left. -/
theorem turn_left (w : World) (e : Envelope) (left : Nat) :
    (w.turn e left).1.notices = w.notices ∧
      ∀ s, (w.turn e left).2 = some s → s.2.left + 1 ≤ left := by
  induction left generalizing w with
  | zero =>
    rcases hsend : w.send e with ⟨f | ⟨⟩, w₁⟩ <;>
      have hnotices : w₁.notices = w.notices := congrArg (·.2.notices) hsend.symm <;>
      simp only [turn, hsend]
    · exact ⟨hnotices, fun s hs => nomatch hs⟩
    · exact ⟨hnotices, fun s hs => nomatch hs⟩
  | succ left ih =>
    rcases hsend : w.send e with ⟨f | ⟨⟩, w₁⟩ <;>
      have hnotices : w₁.notices = w.notices := congrArg (·.2.notices) hsend.symm <;>
      simp only [turn, hsend]
    · split
      · split
        · obtain ⟨hsame, hleft⟩ := ih (w₁.count .sendRetries 1)
          exact ⟨hsame.trans hnotices, fun s hs => Nat.le_succ_of_le (hleft s hs)⟩
        · refine ⟨hnotices, fun s hs => ?_⟩
          cases hs
          exact Nat.le_refl _
      · exact ⟨hnotices, fun s hs => nomatch hs⟩
    · exact ⟨hnotices, fun s hs => nomatch hs⟩

/-- Of notices that have had their turns, no more is left than of the attempts that they had. -/
theorem turns_left (l : List Notice) (w : World) :
    (w.turns l).notices.ready = w.notices.ready ∧ (w.turns l).notices.limit = w.notices.limit ∧
      turnsOf (w.turns l).notices.asleep ≤
        turnsOf w.notices.asleep + (l.map (·.left)).sum := by
  induction l generalizing w with
  | nil => exact ⟨rfl, rfl, Nat.le_refl _⟩
  | cons n l ih =>
    obtain ⟨hsame, hleft⟩ := w.turn_left n.envelope n.left
    rcases hturn : w.turn n.envelope n.left with ⟨w₁, _ | s⟩ <;> rw [hturn] at hsame hleft <;>
      simp only [turns, hturn, List.map_cons, List.sum_cons]
    · obtain ⟨hready, hlimit, hturns⟩ := ih w₁
      rw [hsame] at hready hlimit hturns
      exact ⟨hready, hlimit, by omega⟩
    · obtain ⟨hready, hlimit, hturns⟩ := ih { w₁ with notices :=
        { w₁.notices with asleep := bedded s w₁.notices.asleep } }
      have hsame : w₁.notices = w.notices := hsame
      have hless := hleft s rfl
      have hasleep : turnsOf (bedded s w₁.notices.asleep) =
          s.2.left + 1 + turnsOf w.notices.asleep := by rw [turnsOf_bedded, hsame]
      refine ⟨hready.trans (by rw [hsame]), hlimit.trans (by rw [hsame]),
        Nat.le_trans hturns ?_⟩
      dsimp only
      rw [hasleep]
      omega

/-- Each of the first sleepers has one turn less, or none. -/
theorem wake_left (w : World) (n : Nat) :
    (w.wake n).notices.ready = w.notices.ready ∧ (w.wake n).notices.limit = w.notices.limit ∧
      turnsOf (w.wake n).notices.asleep + min n w.notices.asleep.length ≤
        turnsOf w.notices.asleep := by
  obtain ⟨hready, hlimit, hturns⟩ := turns_left ((w.notices.asleep.take n).map (·.2))
    { w with notices := { w.notices with asleep := w.notices.asleep.drop n } }
  have hsplit := turnsOf_append (w.notices.asleep.take n) (w.notices.asleep.drop n)
  have hfirst := turnsOf_eq (w.notices.asleep.take n)
  rw [List.take_append_drop] at hsplit
  rw [List.length_take] at hfirst
  have hwake : turnsOf (w.wake n).notices.asleep ≤ turnsOf (w.notices.asleep.drop n) +
      ((w.notices.asleep.take n).map fun s => s.2.left).sum := by
    rw [List.map_map] at hturns
    exact hturns
  exact ⟨hready, hlimit, by omega⟩

/-- When the clock goes on to the first sleepers, there are fewer turns left. -/
theorem advance_left (w : World) :
    w.advance.notices.ready = w.notices.ready ∧ w.advance.notices.limit = w.notices.limit ∧
      (w.notices.asleep ≠ [] →
        turnsOf w.advance.notices.asleep < turnsOf w.notices.asleep) := by
  unfold advance
  split
  · next hnone => exact ⟨rfl, rfl, fun h => absurd (List.head?_eq_none_iff.1 hnone) h⟩
  · next s hs =>
    obtain ⟨r, hr⟩ : ∃ r, w.notices.asleep = s :: r := List.head?_eq_some_iff.1 hs
    obtain ⟨hready, hlimit, hturns⟩ := (w.reach s.1).wake_left (w.dueBy s.1)
    have hdue : 0 < w.dueBy s.1 := by
      unfold dueBy
      rw [hr, List.takeWhile_cons_of_pos (by simp), List.length_cons]
      exact Nat.succ_pos _
    have hlength : 0 < (w.reach s.1).notices.asleep.length := by
      show 0 < w.notices.asleep.length
      rw [hr]
      exact Nat.succ_pos _
    refine ⟨hready, hlimit, fun _ => ?_⟩
    have hreach : (w.reach s.1).notices.asleep = w.notices.asleep := rfl
    rw [hreach] at hturns hlength
    omega

/-- **Time passes long enough**: until there are no sleepers or the test fails. -/
theorem advanceWhile_left (test : World → Bool) (turns : Nat) (w : World)
    (h : turnsOf w.notices.asleep ≤ turns) :
    let v := advanceWhile test turns w
    v.notices.ready = w.notices.ready ∧ v.notices.limit = w.notices.limit ∧
      (v.notices.asleep = [] ∨ test v = false) := by
  induction turns generalizing w with
  | zero =>
    refine ⟨rfl, rfl, .inl ?_⟩
    have hzero := (turnsOf_eq w.notices.asleep).symm.trans (Nat.le_zero.1 h)
    exact List.eq_nil_of_length_eq_zero (Nat.add_eq_zero_iff.1 hzero).2
  | succ turns ih =>
    unfold advanceWhile
    split
    · next hgo =>
      obtain ⟨hready, hlimit, hless⟩ := w.advance_left
      have hne : w.notices.asleep ≠ [] := by
        rintro hnil
        rw [hnil] at hgo
        cases hgo
      have hlt := hless hne
      obtain ⟨hready', hlimit', hend⟩ := ih w.advance (by omega)
      exact ⟨hready'.trans hready, hlimit'.trans hlimit, hend⟩
    · next hgo =>
      refine ⟨rfl, rfl, ?_⟩
      cases hempty : w.notices.asleep.isEmpty with
      | true => exact .inl (List.isEmpty_iff.1 hempty)
      | false =>
        rw [hempty, Bool.not_false, Bool.true_and, Bool.not_eq_true] at hgo
        exact .inr hgo

theorem passWhile_left (w : World) (test : World → Bool) :
    (w.passWhile test).notices.ready = [] ∧ (w.passWhile test).notices.limit = w.notices.limit ∧
      ((w.passWhile test).notices.asleep = [] ∨ test (w.passWhile test) = false) := by
  obtain ⟨hready, hlimit, -⟩ := turns_left w.notices.ready
    { w with notices := { w.notices with ready := [] } }
  obtain ⟨hready', hlimit', hend⟩ :=
    advanceWhile_left test _ w.turnReady (Nat.le_refl w.turnReady.notices.turnsLeft)
  exact ⟨hready'.trans hready, hlimit'.trans hlimit, hend⟩

/-- **Who waits for room gets it.** -/
theorem hasRoom_passForRoom (w : World) : w.passForRoom.notices.hasRoom = true := by
  unfold passForRoom
  split
  · assumption
  · obtain ⟨hready, -, hasleep | htest⟩ := w.passWhile_left fun w => !w.notices.hasRoom
    · have hnone : (w.passWhile fun w => !w.notices.hasRoom).notices.underWay = 0 := by
        unfold Notices.underWay
        rw [hready, hasleep]
        rfl
      refine decide_eq_true ?_
      rw [hnone]
      omega
    · exact (Bool.not_eq_false' _).mp htest

/-- **When all have settled, none is under way.** -/
theorem settle_left (w : World) : w.settle.notices.ready = [] ∧ w.settle.notices.asleep = [] := by
  obtain ⟨hready, -, hasleep | htest⟩ := w.passWhile_left fun _ => true
  · exact ⟨hready, hasleep⟩
  · cases htest

end World

end Takeaway
