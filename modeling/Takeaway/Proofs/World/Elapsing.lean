import Mathlib.Data.List.TakeWhile
import Mathlib.Logic.Relation
import Takeaway.Proofs.World.Clock
import Takeaway.Proofs.World.Parts
import Takeaway.Proofs.World.Room

/-!
Notices that go on one at a time while somebody waits. Main statement: what happens while somebody
waits until a tick or for room is a row of single steps, each a notice that goes on or time that passes
while none is ready.
-/

namespace Takeaway

open Relation (ReflTransGen)

namespace World

variable {w w' v : World} {n tick : Nat} {P : World → Prop} {timer : Option Nat}
  {test : World → Bool}

/-! ### Single steps -/

/-- One of the notices under way goes on: it has its turn when it is ready, and is ready again when
its pause is over. -/
inductive Stirs (w : World) : World → Prop where
  | turn {front behind : List Notice} {n : Notice} (h : w.notices.ready = front ++ n :: behind) :
      Stirs w (World.turns
        { w with notices := { w.notices with ready := front ++ behind } } [n])
  | wakes {front behind : List (Nat × Notice)} {s : Nat × Notice}
      (h : w.notices.asleep = front ++ s :: behind) (hdue : s.1 ≤ w.now) :
      Stirs w { w with notices := { w.notices with
        ready := w.notices.ready ++ [s.2], asleep := front ++ behind } }

/-- What attempts to send keep, a notice that goes on keeps. -/
theorem Stirs.lasts {I : World → Prop} (h : w.Stirs w') (hI : Lasts I) (hw : I w) : I w' := by
  cases h with
  | turn h => exact hI.turns _ (hI.moved w w.now _ hw)
  | wakes h hdue => exact hI.moved w w.now _ hw

theorem Stirs.now (h : w.Stirs w') : w'.now = w.now := by
  cases h with
  | turn h => exact turns_now _ _
  | wakes h hdue => rfl

/-- A notice goes on in every world with the same mail. -/
theorem Stirs.exists_same (h : w.Stirs w') (hsame : SameMail w v) :
    ∃ v', v.Stirs v' ∧ SameMail w' v' := by
  have hnotices := hsame.notices
  cases h with
  | turn h =>
    refine ⟨_, .turn (hnotices ▸ h), SameMail.turns ?_ _⟩
    exact ⟨hsame.now, hsame.topic, hsame.broker, by dsimp only; rw [hnotices]⟩
  | wakes h hdue =>
    refine ⟨_, .wakes (hnotices ▸ h) (hsame.now ▸ hdue), ?_⟩
    exact ⟨hsame.now, hsame.topic, hsame.broker, by dsimp only; rw [hnotices]⟩

/-- What can happen while somebody waits, who goes on at a tick if that is set: a notice goes on, or
time passes while none is ready. -/
inductive Elapses (waits : World → Prop) (timer : Option Nat) (w : World) : World → Prop where
  | stirs {w' : World} (h : w.Stirs w') : Elapses waits timer w w'
  | ticks {tick : Nat} (hwaits : waits w) (hready : w.notices.ready = []) (hlater : w.now < tick)
      (hasleep : ∀ s ∈ w.notices.asleep, tick ≤ s.1) (htimer : ∀ t ∈ timer, tick ≤ t) :
      Elapses waits timer w (w.reach tick)

/-! ### Sleepers in order -/

/-- Who goes on earlier is in front. -/
def InOrder (w : World) : Prop := w.notices.asleep.Pairwise fun s t => s.1 ≤ t.1

theorem pairwise_bedded {α : Type} {s : Nat × α} {l : List (Nat × α)}
    (h : l.Pairwise fun s t => s.1 ≤ t.1) : (bedded s l).Pairwise fun s t => s.1 ≤ t.1 := by
  induction l with
  | nil => exact List.pairwise_singleton ..
  | cons t l ih =>
    obtain ⟨hhead, htail⟩ := List.pairwise_cons.1 h
    unfold bedded
    split
    · next hlt =>
      refine List.pairwise_cons.2 ⟨List.forall_mem_cons.2 ⟨hlt.le, fun u hu => ?_⟩, h⟩
      exact hlt.le.trans (hhead u hu)
    · next hle =>
      refine List.pairwise_cons.2 ⟨fun u hu => ?_, ih htail⟩
      rcases List.mem_cons.1 ((perm_bedded s l).mem_iff.1 hu) with rfl | hu
      · exact Nat.le_of_not_lt hle
      · exact hhead u hu

/-! ### One notice after the other -/

/-- What a turn does depends on the notices under way by their policy alone. -/
theorem turn_notices {l : Notices} (hpolicy : l.policy = w.notices.policy) (e : Envelope)
    (left : Nat) : ({ w with notices := l } : World).turn e left =
      ({ (w.turn e left).1 with notices := l }, (w.turn e left).2) := by
  have hsend : ∀ v : World, ({ v with notices := l } : World).send e =
      ((v.send e).1, { (v.send e).2 with notices := l }) := fun _ => rfl
  induction left generalizing w with
  | zero =>
    rcases heq : w.send e with ⟨f | ⟨⟩, w₁⟩ <;> simp only [turn, hsend, heq]
    rfl
  | succ left ih =>
    have hnotices := (w.send_same e).2
    rcases heq : w.send e with ⟨f | ⟨⟩, w₁⟩ <;> rw [heq] at hnotices <;>
      simp only [turn, hsend, heq]
    have hsame : l.policy = w₁.notices.policy := hpolicy.trans (by rw [hnotices])
    split
    · by_cases hpause : w₁.notices.policy.delay.ticks = 0
      · simp only [World.count, hsame, hpause, if_true]
        exact ih (w := w₁.count .sendRetries 1) hsame
      · simp only [World.count, hsame, hpause, if_false]
    · rfl

/-- The world where just these notices are ready. -/
def readied (w : World) (l : List Notice) : World :=
  { w with notices := { w.notices with ready := l } }

/-- Turns do not depend on what else is ready. -/
theorem turns_readied (l r : List Notice) (w : World) :
    (w.readied r).turns l = (w.turns l).readied r := by
  induction l generalizing w with
  | nil => rfl
  | cons n l ih =>
    have hnotices := (w.turn_same n.envelope n.left).2
    have hturn : (w.readied r).turn n.envelope n.left = _ :=
      turn_notices (w := w) (l := { w.notices with ready := r }) rfl n.envelope n.left
    rcases heq : w.turn n.envelope n.left with ⟨w₁, _ | s⟩ <;> rw [heq] at hnotices hturn <;>
      simp only [turns, hturn, heq, ← hnotices]
    · exact ih w₁
    · exact ih { w₁ with notices := { w₁.notices with asleep := bedded s w₁.notices.asleep } }

theorem turns_cons (w : World) (n : Notice) (l : List Notice) :
    w.turns (n :: l) = (w.turns [n]).turns l := by
  rcases heq : w.turn n.envelope n.left with ⟨w₁, _ | s⟩ <;> simp only [turns, heq]

/-- Notices that are ready have their turns one after the other. -/
theorem stirs_turns (l : List Notice) (hready : w.notices.ready = []) :
    ReflTransGen Stirs (w.readied l) (w.turns l) := by
  induction l generalizing w with
  | nil =>
    have hsame : w.readied [] = w := by
      unfold readied
      rw [← hready]
    rw [hsame]
    exact .refl
  | cons n l ih =>
    have hfirst : (w.readied (n :: l)).Stirs ((w.readied l).turns [n]) :=
      @Stirs.turn _ [] l n rfl
    rw [turns_readied] at hfirst
    rw [turns_cons]
    exact (ih ((turns_left [n] w).1.trans hready)).head hfirst

theorem stirs_turnReady (w : World) : ReflTransGen Stirs w w.turnReady :=
  stirs_turns (w := w.readied []) w.notices.ready rfl

/-- Sleepers whose pause is over are ready one after the other. -/
theorem stirs_wakes {l rest : List (Nat × Notice)} (h : w.notices.asleep = l ++ rest)
    (hdue : ∀ s ∈ l, s.1 ≤ w.now) :
    ReflTransGen Stirs w { w with notices := { w.notices with
      ready := w.notices.ready ++ l.map (·.2), asleep := rest } } := by
  induction l generalizing w with
  | nil =>
    rw [List.map_nil, List.append_nil, ← List.nil_append rest, ← h]
  | cons s l ih =>
    obtain ⟨hs, hl⟩ := List.forall_mem_cons.1 hdue
    have hfirst := @Stirs.wakes w [] (l ++ rest) s h hs
    have hrest := ih (w := { w with notices := { w.notices with
      ready := w.notices.ready ++ [s.2], asleep := l ++ rest } }) rfl hl
    dsimp only at hrest
    rw [List.append_assoc] at hrest
    exact hrest.head hfirst

theorem due_of_take_dueBy {s : Nat × Notice} (hs : s ∈ w.notices.asleep.take (w.dueBy tick)) :
    s.1 ≤ tick := by
  unfold dueBy at hs
  rw [← List.prefix_iff_eq_take.1 (List.takeWhile_prefix _)] at hs
  simpa using List.mem_takeWhile_imp hs

theorem stirs_rouse (w : World) : ReflTransGen Stirs w w.rouse :=
  stirs_wakes (List.take_append_drop ..).symm fun _ => due_of_take_dueBy

/-- Sleepers that go on and have their turns at once. -/
theorem stirs_wake (hready : w.notices.ready = [])
    (hdue : ∀ s ∈ w.notices.asleep.take n, s.1 ≤ w.now) : ReflTransGen Stirs w (w.wake n) := by
  refine (stirs_wakes (List.take_append_drop ..).symm hdue).trans ?_
  rw [hready, List.nil_append]
  exact stirs_turns (w := { w with notices := { w.notices with
    asleep := w.notices.asleep.drop n } }) _ hready

/-! ### Waiting -/

namespace InOrder

theorem turns (h : w.InOrder) (l : List Notice) : (w.turns l).InOrder := by
  induction l generalizing w with
  | nil => exact h
  | cons n l ih =>
    have hnotices := (w.turn_same n.envelope n.left).2
    rcases heq : w.turn n.envelope n.left with ⟨w₁, _ | s⟩ <;> rw [heq] at hnotices <;>
      simp only [World.turns, heq]
    · refine ih ?_
      unfold InOrder
      rwa [hnotices]
    · refine ih (pairwise_bedded ?_)
      rwa [hnotices]

theorem wake (h : w.InOrder) (n : Nat) : (w.wake n).InOrder := by
  refine turns ?_ _
  exact List.Pairwise.sublist (List.drop_sublist ..) h

theorem advance (h : w.InOrder) : w.advance.InOrder := by
  unfold World.advance
  split
  · exact h
  · exact wake (w := w.reach _) h _

theorem head_le (h : w.InOrder) {s t : Nat × Notice} (hs : w.notices.asleep.head? = some s)
    (ht : t ∈ w.notices.asleep) : s.1 ≤ t.1 := by
  unfold InOrder at h
  obtain ⟨r, hr⟩ := List.head?_eq_some_iff.1 hs
  rw [hr] at h ht
  rcases List.mem_cons.1 ht with rfl | ht
  · exact Nat.le_refl _
  · exact (List.pairwise_cons.1 h).1 t ht

end InOrder

/-- What notices do at one tick happens while somebody waits. -/
theorem elapses_of_stirs (h : ReflTransGen Stirs w w') : ReflTransGen (Elapses P timer) w w' :=
  h.lift id fun _ _ => .stirs

/-- Time passes if that takes any. -/
theorem elapses_reach (hready : w.notices.ready = []) (hasleep : ∀ s ∈ w.notices.asleep, tick ≤ s.1)
    (hwaits : w.now < tick → P w ∧ ∀ t ∈ timer, tick ≤ t) :
    ReflTransGen (Elapses P timer) w (w.reach tick) := by
  rcases Nat.lt_or_ge w.now tick with hlater | hpast
  · obtain ⟨hP, htimer⟩ := hwaits hlater
    exact .single (.ticks hP hready hlater hasleep htimer)
  · have hsame : w.reach tick = w := by
      unfold reach
      rw [max_eq_left hpast]
    rw [hsame]

/-- The clock moves on to the first sleepers, and these have their turns. -/
theorem elapses_advance (hready : w.notices.ready = []) (horder : w.InOrder)
    (hwaits : ∀ s, w.notices.asleep.head? = some s → P w ∧ ∀ t ∈ timer, s.1 ≤ t) :
    ReflTransGen (Elapses P timer) w w.advance := by
  unfold advance
  cases hs : w.notices.asleep.head? with
  | none => exact .refl
  | some s =>
    refine (elapses_reach hready (fun t ht => horder.head_le hs ht) fun _ => hwaits s hs).trans ?_
    refine elapses_of_stirs (stirs_wake hready fun t ht => ?_)
    exact (due_of_take_dueBy ht).trans (le_max_right _ _)

theorem elapses_advanceWhile (turns : Nat) (hready : w.notices.ready = []) (horder : w.InOrder)
    (hwaits : ∀ v s, test v = true → v.notices.asleep.head? = some s → P v ∧ ∀ t ∈ timer, s.1 ≤ t) :
    ReflTransGen (Elapses P timer) w (advanceWhile test turns w) ∧
      (advanceWhile test turns w).InOrder := by
  induction turns generalizing w with
  | zero => exact ⟨.refl, horder⟩
  | succ turns ih =>
    unfold advanceWhile
    split
    · next hgo =>
      obtain ⟨hrest, hend⟩ := ih (w.advance_left.1.trans hready) horder.advance
      have htest := (Bool.and_eq_true_iff.1 hgo).2
      exact ⟨(elapses_advance hready horder fun s hs => hwaits w s htest hs).trans hrest, hend⟩
    · exact ⟨.refl, horder⟩

/-- Time that passes while a test holds passes step by step. -/
theorem elapses_passWhile (horder : w.InOrder)
    (hwaits : ∀ v s, test v = true → v.notices.asleep.head? = some s → P v ∧ ∀ t ∈ timer, s.1 ≤ t) :
    ReflTransGen (Elapses P timer) w (w.passWhile test) ∧ (w.passWhile test).InOrder := by
  obtain ⟨hrest, hend⟩ := elapses_advanceWhile w.turnReady.notices.turnsLeft
    (turns_left w.notices.ready (w.readied [])).1 (InOrder.turns (w := w.readied []) horder _) hwaits
  exact ⟨(elapses_of_stirs w.stirs_turnReady).trans hrest, hend⟩

/-- **Who waits for room** gets it step by step. -/
theorem elapses_passForRoom (horder : w.InOrder) :
    ReflTransGen (Elapses (fun w => w.notices.hasRoom = false) none) w w.passForRoom ∧
      w.passForRoom.InOrder := by
  unfold passForRoom
  split
  · exact ⟨.refl, horder⟩
  · refine elapses_passWhile horder fun v s hv _ => ⟨?_, nofun⟩
    exact (Bool.not_eq_true' _).mp hv

theorem InOrder.settle (horder : w.InOrder) : w.settle.InOrder := by
  have hsettles : ReflTransGen (Elapses (fun _ => True) none) w w.settle ∧ w.settle.InOrder :=
    elapses_passWhile horder fun _ _ _ _ => ⟨trivial, nofun⟩
  exact hsettles.2

/-! ### Waiting until a tick -/

/-- The number of those who sleep until a tick. -/
def sleepersUntil (w : World) (tick : Nat) : Nat := w.notices.asleep.countP fun s => s.1 == tick

theorem sleepersUntil_turns (l : List Notice) (w : World) :
    w.sleepersUntil tick ≤ (w.turns l).sleepersUntil tick := by
  induction l generalizing w with
  | nil => exact Nat.le_refl _
  | cons n l ih =>
    have hnotices := (w.turn_same n.envelope n.left).2
    rcases heq : w.turn n.envelope n.left with ⟨w₁, _ | s⟩ <;> rw [heq] at hnotices <;>
      simp only [turns, heq]
    · refine Nat.le_trans (Nat.le_of_eq ?_) (ih w₁)
      unfold sleepersUntil
      rw [← hnotices]
    · refine Nat.le_trans ?_ (ih _)
      unfold sleepersUntil
      dsimp only
      rw [(perm_bedded s _).countP_eq, List.countP_cons, ← hnotices]
      exact Nat.le_add_right _ _

/-- Those who sleep until later do not go on. -/
theorem sleepersUntil_advance
    (hhead : w.notices.asleep.head?.any (fun s => decide (s.1 < tick)) = true) :
    w.sleepersUntil tick ≤ w.advance.sleepersUntil tick := by
  unfold advance
  cases hs : w.notices.asleep.head? with
  | none => exact Nat.le_refl _
  | some s =>
    rw [hs] at hhead
    have hlt : s.1 < tick := of_decide_eq_true hhead
    refine Nat.le_trans (Nat.le_of_eq ?_) (sleepersUntil_turns _ _)
    have hnone : (w.notices.asleep.take (w.dueBy s.1)).countP (fun t => t.1 == tick) = 0 := by
      refine List.countP_eq_zero.2 fun t ht => ?_
      have hle := due_of_take_dueBy ht
      simp only [beq_iff_eq]
      omega
    unfold sleepersUntil
    conv_lhs => rw [← List.take_append_drop (w.dueBy s.1) w.notices.asleep]
    rw [List.countP_append, hnone, Nat.zero_add]
    rfl

theorem sleepersUntil_passWhile (tick : Nat) (w : World) : w.sleepersUntil tick ≤
    (w.passWhile fun w => w.notices.asleep.head?.any fun s => decide (s.1 < tick)).sleepersUntil
      tick := by
  have hwhile : ∀ (turns : Nat) (w : World), w.sleepersUntil tick ≤ (advanceWhile
      (fun w => w.notices.asleep.head?.any fun s => decide (s.1 < tick)) turns w).sleepersUntil
        tick := by
    intro turns
    induction turns with
    | zero => exact fun w => Nat.le_refl _
    | succ turns ih =>
      intro w
      unfold advanceWhile
      split
      · next hgo => exact (sleepersUntil_advance (Bool.and_eq_true_iff.1 hgo).2).trans (ih _)
      · exact Nat.le_refl _
  exact (sleepersUntil_turns w.notices.ready (w.readied [])).trans (hwhile _ _)

/-- Of sleepers in order who all sleep until a tick or longer, those until the tick are in front. -/
theorem eq_of_mem_take {l : List (Nat × Notice)} (horder : l.Pairwise fun s t => s.1 ≤ t.1)
    (hlater : ∀ s ∈ l, tick ≤ s.1) (hn : n ≤ l.countP fun s => s.1 == tick) :
    ∀ s ∈ l.take n, s.1 = tick := by
  induction l generalizing n with
  | nil => simp
  | cons t l ih =>
    cases n with
    | zero => simp
    | succ n =>
      obtain ⟨hhead, htail⟩ := List.pairwise_cons.1 horder
      obtain ⟨ht, hl⟩ := List.forall_mem_cons.1 hlater
      by_cases heq : t.1 = tick
      · rw [List.countP_cons_of_pos (by simpa using heq)] at hn
        rw [List.take_succ_cons, List.forall_mem_cons]
        exact ⟨heq, ih htail hl (by omega)⟩
      · -- all others sleep longer too
        have hnone : l.countP (fun s => s.1 == tick) = 0 := by
          refine List.countP_eq_zero.2 fun s hs => ?_
          have hle := hhead s hs
          simp only [beq_iff_eq]
          omega
        rw [List.countP_cons_of_neg (by simpa using heq), hnone] at hn
        omega

/-- **Who waits until a tick** gets there step by step. -/
theorem elapses_passUntil (horder : w.InOrder) (rank : Rank) (tick : Nat) :
    ReflTransGen (Elapses (fun _ => True) (some tick)) w (w.passUntil rank tick) ∧
      (w.passUntil rank tick).InOrder := by
  let v := w.passWhile fun w => w.notices.asleep.head?.any fun s => decide (s.1 < tick)
  -- of those who sleep until the tick, some go on before
  obtain ⟨elder, helder, hpasses⟩ : ∃ elder ≤ w.sleepersUntil tick,
      w.passUntil rank tick = ((v.reach tick).wake elder).rouse := by
    cases rank with
    | first => exact ⟨0, Nat.zero_le _, rfl⟩
    | inTurn => exact ⟨_, List.countP_eq_length_filter.ge, rfl⟩
  obtain ⟨hpass, hv⟩ : ReflTransGen (Elapses (fun _ => True) (some tick)) w v ∧ v.InOrder := by
    refine elapses_passWhile horder fun u s hu hs => ⟨trivial, ?_⟩
    rintro t ⟨⟩
    rw [hs] at hu
    exact (of_decide_eq_true hu).le
  obtain ⟨hready, -, hend⟩ := w.passWhile_left
    fun w => w.notices.asleep.head?.any fun s => decide (s.1 < tick)
  change v.notices.ready = [] at hready
  have hasleep : ∀ s ∈ v.notices.asleep, tick ≤ s.1 := by
    intro s hs
    rcases hend with hnone | htest
    · exact absurd (hnone ▸ hs) List.not_mem_nil
    · obtain ⟨t, ht⟩ := Option.isSome_iff_exists.1 (List.isSome_head?.2 (List.ne_nil_of_mem hs))
      rw [ht] at htest
      exact (Nat.le_of_not_lt (of_decide_eq_false htest)).trans (hv.head_le ht hs)
  have hfront : ∀ s ∈ v.notices.asleep.take elder, s.1 = tick :=
    eq_of_mem_take hv hasleep (helder.trans (w.sleepersUntil_passWhile tick))
  have hreach : ReflTransGen (Elapses (fun _ => True) (some tick)) v (v.reach tick) := by
    refine elapses_reach hready hasleep fun _ => ⟨trivial, ?_⟩
    rintro t ⟨⟩
    exact Nat.le_refl _
  have hwake : ReflTransGen Stirs (v.reach tick) ((v.reach tick).wake elder) :=
    stirs_wake hready fun s hs => (hfront s hs).le.trans (le_max_right _ _)
  rw [hpasses]
  refine ⟨((hpass.trans hreach).trans (elapses_of_stirs hwake)).trans
    (elapses_of_stirs (stirs_rouse ((v.reach tick).wake elder))), ?_⟩
  exact List.Pairwise.sublist (List.drop_sublist ..) (InOrder.wake (w := v.reach tick) hv elder)

end World

end Takeaway
