import Takeaway.Proofs.Flow.Ends

/-!
The clock while somebody waits. Main statements: a wait that is to be over at a tick leaves the
clock at that tick, whatever notices are tried meanwhile; what a pause comes to, with a limit and
without one; and where no notice is under way, a pause moves the clock and does nothing else.
-/

namespace Takeaway

/-- A pause of whole milliseconds takes as many ticks. -/
theorem Span.ticks_millis (n : Nat) : (Span.millis n).ticks = n := by
  show (n * 1000000 + 999999) / 1000000 = n
  omega

namespace World

variable {w : World} {tick : Nat}

/-! ### Turns take no time -/

theorem send_same (w : World) (e : Envelope) :
    (w.send e).2.now = w.now ∧ (w.send e).2.notices = w.notices := ⟨rfl, rfl⟩

/-- A turn moves neither the clock nor the other notices. -/
theorem turn_same (w : World) (e : Envelope) (left : Nat) :
    (w.turn e left).1.now = w.now ∧ (w.turn e left).1.notices = w.notices := by
  induction left generalizing w with
  | zero =>
    have hsend := w.send_same e
    rcases heq : w.send e with ⟨f | ⟨⟩, w₁⟩ <;> rw [heq] at hsend <;> simp only [turn, heq] <;>
      exact hsend
  | succ left ih =>
    have hsend := w.send_same e
    rcases heq : w.send e with ⟨f | ⟨⟩, w₁⟩ <;> rw [heq] at hsend <;> simp only [turn, heq]
    · split
      · split
        · obtain ⟨hnow, hnotices⟩ := ih (w₁.count .sendRetries 1)
          exact ⟨hnow.trans hsend.1, hnotices.trans hsend.2⟩
        · exact hsend
      · exact hsend
    · exact hsend

theorem turns_now (w : World) (l : List Notice) : (w.turns l).now = w.now := by
  induction l generalizing w with
  | nil => rfl
  | cons n r ih =>
    obtain ⟨hnow, -⟩ := w.turn_same n.envelope n.left
    unfold turns
    rcases heq : w.turn n.envelope n.left with ⟨w₁, _ | s⟩ <;> rw [heq] at hnow
    · exact (ih w₁).trans hnow
    · exact (ih _).trans hnow

theorem wake_now (w : World) (n : Nat) : (w.wake n).now = w.now := turns_now _ _

/-! ### Waiting until a tick -/

/-- The clock is moved on to the first sleepers only. -/
theorem advance_now_le (h : w.now ≤ tick)
    (hhead : w.notices.asleep.head?.any (fun s => decide (s.1 ≤ tick)) = true) :
    w.advance.now ≤ tick := by
  unfold advance
  cases hs : w.notices.asleep.head? with
  | none => exact h
  | some s =>
    rw [hs] at hhead
    rw [wake_now]
    exact max_le h (of_decide_eq_true hhead)

theorem advanceWhile_now_le {test : World → Bool}
    (htest : ∀ v, test v = true →
      v.notices.asleep.head?.any (fun s => decide (s.1 ≤ tick)) = true)
    (turns : Nat) (h : w.now ≤ tick) : (advanceWhile test turns w).now ≤ tick := by
  induction turns generalizing w with
  | zero => exact h
  | succ turns ih =>
    unfold advanceWhile
    split
    · next hgo => exact ih (advance_now_le h (htest w (Bool.and_eq_true_iff.1 hgo).2))
    · exact h

/-- **Who waits until a tick goes on at that tick.** -/
theorem passUntil_now (rank : Rank) (h : w.now ≤ tick) : (w.passUntil rank tick).now = tick := by
  unfold passUntil
  show (wake _ _).now = tick
  rw [wake_now]
  refine max_eq_right (advanceWhile_now_le (fun v hv => ?_) _ ?_)
  · cases hs : v.notices.asleep.head? with
    | none => simp [hs] at hv
    | some s =>
      simp only [hs, Option.any_some, decide_eq_true_eq] at hv ⊢
      omega
  · show (w.turnReady).now ≤ tick
    exact (turns_now _ _).le.trans h

/-! ### Pauses -/

-- what a wait comes to is said of any wait first: of a pause the kernel would count out its ticks
theorem await_of_now (rank : Rank) {wt : Wait} {limit : Option Nat} {reached : Bool}
    (h : wt.outcome w.now limit = .now reached) : w.await rank wt limit = (reached, w) := by
  unfold await
  rw [h]

theorem await_of_later (rank : Rank) {wt : Wait} {limit : Option Nat} {reached : Bool}
    (h : wt.outcome w.now limit = .later tick reached) :
    w.await rank wt limit = (reached, w.passUntil rank tick) := by
  unfold await
  rw [h]

/-- Who waits for something at a tick that is to come goes on at that tick. -/
theorem await_later (rank : Rank) {wt : Wait} {limit : Option Nat} {reached : Bool}
    (h : wt.outcome w.now limit = .later tick reached) (htick : w.now ≤ tick) :
    (w.await rank wt limit).1 = reached ∧ (w.await rank wt limit).2.now = tick := by
  rw [await_of_later rank h]
  exact ⟨rfl, passUntil_now rank htick⟩

/-- A pause goes on when its time is over. -/
theorem await_pause (w : World) (rank : Rank) (s : Span) :
    (w.await rank (.pause s) none).1 = true ∧
      (w.await rank (.pause s) none).2.now = w.now + s.ticks := by
  by_cases hs : s.ticks = 0
  · rw [Flow.await_of_ticks hs, hs]
    exact ⟨rfl, rfl⟩
  · exact await_later rank (if_neg hs) (Nat.le_add_right _ _)

/-- A pause that is over by the limit is not hurt by it. -/
theorem await_pause_in_time (rank : Rank) {s : Span} (hs : s.ticks ≠ 0)
    (h : w.now + s.ticks ≤ tick) :
    (w.await rank (.pause s) (some tick)).1 = true ∧
      (w.await rank (.pause s) (some tick)).2.now = w.now + s.ticks := by
  have ho : Wait.outcome w.now (.pause s) (some tick) = .later (w.now + s.ticks) true :=
    (if_neg hs).trans (if_pos h)
  exact await_later rank ho (Nat.le_add_right _ _)

/-- A pause that is not is given up at the limit, or at once if that has passed. -/
theorem await_pause_late (rank : Rank) {s : Span} (hs : s.ticks ≠ 0)
    (h : tick < w.now + s.ticks) :
    (w.await rank (.pause s) (some tick)).1 = false ∧
      (w.await rank (.pause s) (some tick)).2.now = max w.now tick := by
  by_cases hpast : tick ≤ w.now
  · have ho : Wait.outcome w.now (.pause s) (some tick) = .now false :=
      (if_neg hs).trans ((if_neg (Nat.not_le.2 h)).trans (if_pos hpast))
    rw [await_of_now rank ho, max_eq_left hpast]
    exact ⟨rfl, rfl⟩
  · have ho : Wait.outcome w.now (.pause s) (some tick) = .later tick false :=
      (if_neg hs).trans ((if_neg (Nat.not_le.2 h)).trans (if_neg hpast))
    rw [max_eq_right (Nat.le_of_not_le hpast)]
    exact await_later rank ho (Nat.le_of_not_le hpast)

/-! ### Where no notice is under way -/

/-- No notice is under way. -/
structure Alone (w : World) : Prop where
  ready : w.notices.ready = []
  asleep : w.notices.asleep = []

namespace Alone

theorem reach (hw : w.Alone) (tick : Nat) : (w.reach tick).Alone := ⟨hw.ready, hw.asleep⟩

theorem count (hw : w.Alone) (s : Series) (n : Nat) : (w.count s n).Alone := ⟨hw.ready, hw.asleep⟩

theorem hasRoom (hw : w.Alone) : w.notices.hasRoom = true := by
  simp [Notices.hasRoom, Notices.underWay, hw.ready, hw.asleep]

theorem passUntil (hw : w.Alone) (rank : Rank) (tick : Nat) :
    w.passUntil rank tick = w.reach tick := by
  obtain ⟨now, topic, store, stock, broker, ⟨limit, policy, ready, asleep⟩, metrics, keys⟩ := w
  obtain ⟨hready, hasleep⟩ := hw
  cases hready
  cases hasleep
  simp [World.passUntil, passWhile, turnReady, turns, Notices.turnsLeft, advanceWhile, World.reach,
    wake, rouse]

/-- A pause moves the clock, and that is all. -/
theorem await_pause (hw : w.Alone) (rank : Rank) (s : Span) :
    w.await rank (.pause s) none = (true, w.reach (w.now + s.ticks)) := by
  by_cases hs : s.ticks = 0
  · rw [Flow.await_of_ticks hs, hs]
    unfold World.reach
    rw [Nat.add_zero, max_self]
  · have ho : Wait.outcome w.now (.pause s) none = .later (w.now + s.ticks) true := if_neg hs
    rw [await_of_later rank ho, hw.passUntil]

/-- A wait moves the clock, and that is all. -/
theorem await (hw : w.Alone) (rank : Rank) (wt : Wait) (limit : Option Nat) :
    ∃ tick, (w.await rank wt limit).2 = w.reach tick := by
  have hsame : w = w.reach w.now := by
    unfold World.reach
    rw [max_self]
  unfold World.await
  split
  · exact ⟨w.now, hsame⟩
  · exact ⟨_, hw.passUntil rank _⟩
  · refine ⟨w.now, ?_⟩
    show w.passForRoom = _
    unfold passForRoom
    rw [if_pos hw.hasRoom]
    exact hsame
  · exact ⟨w.now, hsame⟩

end Alone

end World

end Takeaway
