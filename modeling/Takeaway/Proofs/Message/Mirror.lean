import Mathlib.Data.Multiset.AddSub
import Takeaway.Proofs.Message.Books
import Takeaway.Proofs.World.Room

/-!
The notices of a world and the tasks of a mailroom. Main statement: whatever the notices under way
do while somebody waits, the tasks of a mailroom that stands for the world do in some run.
-/

namespace Takeaway

/-! ### Attempts -/

/-- The number of an attempt makes no difference to a task. -/
theorem RetryPolicy.taskFrom_eq (p : RetryPolicy) (e : Envelope) (left i j : Nat) :
    p.taskFrom e left i = p.taskFrom e left j := by
  induction left generalizing i j with
  | zero => rw [taskFrom_zero, taskFrom_zero]
  | succ left ih => rw [taskFrom_succ, taskFrom_succ, ih (i + 1) (j + 1)]

/-- The task of a notice that is ready. -/
def Notice.task (p : RetryPolicy) (n : Notice) : Flow Unit := p.taskFrom n.envelope n.left 1

/-- The task of a notice that is asleep. -/
def Notice.dormant (p : RetryPolicy) (n : Notice) : Flow Unit :=
  .wait (.pause p.delay) none fun _ => n.task p

/-- The tasks of the notices under way. -/
def Notices.flows (n : Notices) : Multiset (Flow Unit) :=
  (n.ready.map (Notice.task n.policy) : Multiset (Flow Unit)) +
    (n.asleep.map fun s => s.2.dormant n.policy : List (Flow Unit))

/-- The world without notices under way. -/
def World.bare (w : World) : World :=
  { w with notices := { w.notices with ready := [], asleep := [] } }

namespace Mailroom

variable {m m' m'' : Mailroom} {w w' w'' : World} {l r : Multiset (Flow Unit)} {x : Flow Unit}

/-! ### Runs of tasks -/

/-- What tasks do by themselves, as time passes. -/
inductive Move.IsOwn : Move → Prop where
  | step (k : Nat) : Move.IsOwn (.step k none)
  | pass (ticks : Nat) : Move.IsOwn (.pass ticks)

/-- The one mailroom becomes the other while tasks go on by themselves. -/
def Runs (m m' : Mailroom) : Prop :=
  ∃ moves : List Move, (∀ x ∈ moves, x.IsOwn) ∧ m.after moves = m'

namespace Runs

protected theorem refl (m : Mailroom) : m.Runs m :=
  ⟨[], fun _ hx => absurd hx List.not_mem_nil, rfl⟩

protected theorem trans (h : m.Runs m') (h' : m'.Runs m'') : m.Runs m'' := by
  obtain ⟨moves, hown, rfl⟩ := h
  obtain ⟨moves', hown', rfl⟩ := h'
  exact ⟨moves ++ moves', List.forall_mem_append.2 ⟨hown, hown'⟩, List.foldl_append⟩

theorem of_move {x : Move} (hx : x.IsOwn) (m : Mailroom) : m.Runs (m.move x) :=
  ⟨[x], List.forall_mem_singleton.2 hx, rfl⟩

end Runs

/-- What the tasks have left to do. -/
def flows (m : Mailroom) : Multiset (Flow Unit) := (m.tasks.map Errand.flow : List (Flow Unit))

/-- A task that is among those of a mailroom. -/
theorem exists_task (h : m.flows = x ::ₘ r) : ∃ k t, m.tasks[k]? = some t ∧ t.flow = x ∧
    (∀ y, (((m.tasks.set k ⟨t.parcel, y⟩).map Errand.flow : List (Flow Unit)) :
      Multiset (Flow Unit)) = y ::ₘ r) ∧
    ((m.tasks.eraseIdx k).map Errand.flow : List (Flow Unit)) = r := by
  have hx : x ∈ m.flows := h ▸ Multiset.mem_cons_self x r
  obtain ⟨t, ht, rfl⟩ := List.mem_map.1 (Multiset.mem_coe.1 hx)
  obtain ⟨k, hk⟩ := List.mem_iff_getElem?.1 ht
  obtain ⟨front, behind, htasks, herase, hset⟩ := split_of_getElem? hk
  have hmiddle : ∀ y, (((front ++ ⟨t.parcel, y⟩ :: behind).map Errand.flow : List (Flow Unit)) :
      Multiset (Flow Unit)) = y ::ₘ ((front ++ behind).map Errand.flow : List (Flow Unit)) := by
    intro y
    rw [List.map_append, List.map_append, List.map_cons]
    exact Multiset.coe_eq_coe.2 List.perm_middle
  have hr : ((front ++ behind).map Errand.flow : List (Flow Unit)) = r := by
    refine (Multiset.cons_inj_right t.flow).1 ?_
    rw [← h, flows, htasks]
    exact (hmiddle t.flow).symm
  refine ⟨k, t, hk, rfl, fun y => ?_, herase ▸ hr⟩
  rw [hset, ← hr]
  exact hmiddle y

/-! ### Worlds and mailrooms -/

/-- The mailroom stands for the world: it has the tasks `l`, and one for each notice under way. -/
structure Mirrors (l : Multiset (Flow Unit)) (w : World) (m : Mailroom) : Prop where
  world : m.world = w.bare
  flows : m.flows = l + w.notices.flows

namespace Mirrors

/-- A task acts on the world. -/
theorem act {a : Action} {next : a.Answer → Flow Unit} (h : m.Mirrors (.act a next ::ₘ l) w)
    (hbare : w.bare.perform a = ((w.perform a).1, (w.perform a).2.bare))
    (hnotices : (w.perform a).2.notices = w.notices) :
    ∃ m', m.Runs m' ∧ m'.Mirrors (next (w.perform a).1 ::ₘ l) (w.perform a).2 := by
  have hflows := h.flows
  rw [Multiset.cons_add] at hflows
  obtain ⟨k, t, hk, ht, hset, -⟩ := exists_task hflows
  have hanswer : m.world.answer none a = w.bare.perform a := by
    rw [h.world]
    cases a <;> rfl
  refine ⟨_, .of_move (.step k) m, ?_, ?_⟩
  · simp only [move, step, hk, ht, hanswer, hbare]
  · simp only [move, step, hk, ht, hanswer, hbare, Mailroom.flows, hset, hnotices,
      Multiset.cons_add]

/-- A pause of a task is over. -/
theorem wait {wt : Wait} {limit : Option Nat} {next : Bool → Flow Unit}
    (h : m.Mirrors (.wait wt limit next ::ₘ l) w) :
    ∃ m', m.Runs m' ∧ m'.Mirrors (next true ::ₘ l) w := by
  have hflows := h.flows
  rw [Multiset.cons_add] at hflows
  obtain ⟨k, t, hk, ht, hset, -⟩ := exists_task hflows
  refine ⟨_, .of_move (.step k) m, ?_, ?_⟩
  · simp only [move, step, hk, ht, h.world]
  · simp only [move, step, hk, ht, Mailroom.flows, hset, Multiset.cons_add]

/-- A task that is at its end goes away. -/
theorem done (h : m.Mirrors (.done () ::ₘ l) w) : ∃ m', m.Runs m' ∧ m'.Mirrors l w := by
  have hflows := h.flows
  rw [Multiset.cons_add] at hflows
  obtain ⟨k, t, hk, ht, -, herase⟩ := exists_task hflows
  have hsame := same_giveOne { m with tasks := m.tasks.eraseIdx k }
  refine ⟨_, .of_move (.step k) m, ?_, ?_⟩
  · simp only [move, step, hk, ht]
    exact hsame.world.trans h.world
  · simp only [move, step, hk, ht, Mailroom.flows]
    rw [hsame.tasks]
    exact herase

/-- A task gives up. -/
theorem fail (h : m.Mirrors (Flow.count .notificationsFailed ::ₘ l) w) :
    ∃ m', m.Runs m' ∧ m'.Mirrors l (w.count .notificationsFailed 1) := by
  obtain ⟨m₁, hruns₁, h₁⟩ := h.act (w := w) (a := .count .notificationsFailed 1) rfl rfl
  obtain ⟨m₂, hruns₂, h₂⟩ := h₁.done
  exact ⟨m₂, hruns₁.trans hruns₂, h₂⟩

/-- **A turn of a notice** is a row of steps of its task, at the end of which the task is over or
the notice goes to sleep. -/
theorem turn {e : Envelope} {left : Nat}
    (h : m.Mirrors (w.notices.policy.taskFrom e left 1 ::ₘ l) w) :
    ∃ m' w', m.Runs m' ∧ w'.notices = w.notices ∧
      (w.turn e left = (w', none) ∧ m'.Mirrors l w' ∨
        ∃ s, w.turn e left = (w', some s) ∧
          m'.Mirrors (s.2.dormant w.notices.policy ::ₘ l) w') := by
  induction left generalizing w m with
  | zero =>
    rw [RetryPolicy.taskFrom_zero] at h
    obtain ⟨m₁, hruns₁, h₁⟩ := h.act rfl rfl
    rcases hsend : w.send e with ⟨f | ⟨⟩, w₁⟩ <;>
      have hnotices : w₁.notices = w.notices := congrArg (·.2.notices) hsend.symm <;>
      simp only [World.perform, hsend] at h₁ <;> simp only [World.turn, hsend]
    · obtain ⟨m₂, hruns₂, h₂⟩ := h₁.fail
      exact ⟨m₂, w₁.count .notificationsFailed 1, hruns₁.trans hruns₂, hnotices, .inl ⟨rfl, h₂⟩⟩
    · obtain ⟨m₂, hruns₂, h₂⟩ := h₁.done
      exact ⟨m₂, _, hruns₁.trans hruns₂, hnotices, .inl ⟨rfl, h₂⟩⟩
  | succ left ih =>
    rw [RetryPolicy.taskFrom_succ] at h
    obtain ⟨m₁, hruns₁, h₁⟩ := h.act rfl rfl
    rcases hsend : w.send e with ⟨f | ⟨⟩, w₁⟩ <;>
      have hnotices : w₁.notices = w.notices := congrArg (·.2.notices) hsend.symm <;>
      simp only [World.perform, hsend] at h₁ <;> simp only [World.turn, hsend]
    · by_cases hf : f.isTransient = true
      · rw [if_pos hf] at h₁
        simp only [if_pos hf]
        obtain ⟨m₂, hruns₂, h₂⟩ := h₁.act rfl rfl
        rw [RetryPolicy.taskFrom_eq _ e left (1 + 1) 1, ← hnotices] at h₂
        split
        · -- a pause that takes no time is over at once
          obtain ⟨m₃, hruns₃, h₃⟩ := h₂.wait
          obtain ⟨m₄, w₄, hruns₄, hsame, hturn⟩ := ih (w := w₁.count .sendRetries 1) h₃
          refine ⟨m₄, w₄, ((hruns₁.trans hruns₂).trans hruns₃).trans hruns₄,
            hsame.trans hnotices, ?_⟩
          rw [← hnotices]
          exact hturn
        · refine ⟨m₂, w₁.count .sendRetries 1, hruns₁.trans hruns₂, hnotices, .inr ⟨_, rfl, ?_⟩⟩
          rw [← hnotices]
          exact h₂
      · rw [if_neg hf] at h₁
        simp only [if_neg hf]
        obtain ⟨m₂, hruns₂, h₂⟩ := h₁.fail
        exact ⟨m₂, w₁.count .notificationsFailed 1, hruns₁.trans hruns₂, hnotices, .inl ⟨rfl, h₂⟩⟩
    · obtain ⟨m₂, hruns₂, h₂⟩ := h₁.done
      exact ⟨m₂, _, hruns₁.trans hruns₂, hnotices, .inl ⟨rfl, h₂⟩⟩

/-- Turns of notices, one after the other. -/
theorem turns {ns : List Notice}
    (h : m.Mirrors (ns.map (Notice.task w.notices.policy) : List (Flow Unit)) w) :
    ∃ m', m.Runs m' ∧ m'.Mirrors 0 (w.turns ns) := by
  induction ns generalizing w m with
  | nil => exact ⟨m, .refl m, h⟩
  | cons n ns ih =>
    rw [List.map_cons, ← Multiset.cons_coe] at h
    obtain ⟨m₁, w₁, hruns, hsame, ⟨hturn, h₁⟩ | ⟨s, hturn, h₁⟩⟩ := turn h
    · rw [← hsame] at h₁
      obtain ⟨m₂, hruns₂, h₂⟩ := ih h₁
      refine ⟨m₂, hruns.trans hruns₂, ?_⟩
      simp only [World.turns, hturn]
      exact h₂
    · rw [← hsame] at h₁
      let v : World := { w₁ with notices :=
        { w₁.notices with asleep := bedded s w₁.notices.asleep } }
      have hv : m₁.Mirrors (ns.map (Notice.task v.notices.policy) : List (Flow Unit)) v := by
        have hbedded := (perm_bedded s w₁.notices.asleep).map fun s => s.2.dormant w₁.notices.policy
        refine ⟨h₁.world, ?_⟩
        rw [h₁.flows]
        simp only [v, Notices.flows, Multiset.coe_eq_coe.2 hbedded, List.map_cons,
          ← Multiset.cons_coe, Multiset.cons_add, Multiset.add_cons]
      obtain ⟨m₂, hruns₂, h₂⟩ := ih hv
      refine ⟨m₂, hruns.trans hruns₂, ?_⟩
      simp only [World.turns, hturn]
      exact h₂

/-- Sleepers whose pauses are over. -/
theorem rise {p : RetryPolicy} {ns : List Notice}
    (h : m.Mirrors (l + (ns.map (Notice.dormant p) : List (Flow Unit))) w) :
    ∃ m', m.Runs m' ∧ m'.Mirrors (l + (ns.map (Notice.task p) : List (Flow Unit))) w := by
  induction ns generalizing l m with
  | nil => exact ⟨m, .refl m, h⟩
  | cons n ns ih =>
    rw [List.map_cons, ← Multiset.cons_coe, Multiset.add_cons] at h ⊢
    obtain ⟨m₁, hruns₁, h₁⟩ := h.wait
    rw [← Multiset.cons_add] at h₁
    obtain ⟨m₂, hruns₂, h₂⟩ := ih h₁
    rw [Multiset.cons_add] at h₂
    exact ⟨m₂, hruns₁.trans hruns₂, h₂⟩

/-- The first sleepers are no longer asleep. -/
theorem roused (h : m.Mirrors 0 w) (n : Nat) : ∃ m', m.Runs m' ∧
    m'.Mirrors (((w.notices.asleep.take n).map (·.2)).map (Notice.task w.notices.policy) :
      List (Flow Unit)) { w with notices :=
        { w.notices with asleep := w.notices.asleep.drop n } } := by
  let v : World := { w with notices := { w.notices with asleep := w.notices.asleep.drop n } }
  have hv : m.Mirrors (0 + (((w.notices.asleep.take n).map (·.2)).map
      (Notice.dormant w.notices.policy) : List (Flow Unit))) v := by
    refine ⟨h.world, ?_⟩
    rw [h.flows]
    have hsplit : (w.notices.asleep.map fun s => s.2.dormant w.notices.policy) =
        ((w.notices.asleep.take n).map (·.2)).map (Notice.dormant w.notices.policy) ++
          (w.notices.asleep.drop n).map fun s => s.2.dormant w.notices.policy := by
      conv_lhs => rw [← List.take_append_drop n w.notices.asleep]
      rw [List.map_append, List.map_map]
      rfl
    simp only [v, Notices.flows, hsplit, ← Multiset.coe_add]
    abel
  obtain ⟨m₁, hruns, h₁⟩ := hv.rise
  rw [zero_add] at h₁
  exact ⟨m₁, hruns, h₁⟩

end Mirrors

end Mailroom

namespace World

variable {w w' w'' : World}

/-! ### Time -/

/-- Whatever the notices of the one world do until it is the other, the tasks of every mailroom that
stands for it can do. -/
def Shadowed (w w' : World) : Prop :=
  ∀ m : Mailroom, m.Mirrors 0 w → ∃ m', m.Runs m' ∧ m'.Mirrors 0 w'

namespace Shadowed

protected theorem refl (w : World) : w.Shadowed w := fun m h => ⟨m, .refl m, h⟩

protected theorem trans (h : w.Shadowed w') (h' : w'.Shadowed w'') : w.Shadowed w'' := by
  intro m hm
  obtain ⟨m₁, hruns₁, h₁⟩ := h m hm
  obtain ⟨m₂, hruns₂, h₂⟩ := h' m₁ h₁
  exact ⟨m₂, hruns₁.trans hruns₂, h₂⟩

theorem turnReady (w : World) : w.Shadowed w.turnReady := by
  intro m hm
  refine Mailroom.Mirrors.turns (w := { w with notices := { w.notices with ready := [] } })
    ⟨hm.world, ?_⟩
  rw [hm.flows]
  simp only [Notices.flows, List.map_nil, Multiset.coe_nil, zero_add]

theorem wake (w : World) (n : Nat) : w.Shadowed (w.wake n) := by
  intro m hm
  obtain ⟨m₁, hruns₁, h₁⟩ := hm.roused n
  obtain ⟨m₂, hruns₂, h₂⟩ := Mailroom.Mirrors.turns (w := { w with notices :=
    { w.notices with asleep := w.notices.asleep.drop n } }) h₁
  exact ⟨m₂, hruns₁.trans hruns₂, h₂⟩

theorem rouse (w : World) : w.Shadowed w.rouse := by
  intro m hm
  obtain ⟨m₁, hruns, h₁⟩ := hm.roused (w.dueBy w.now)
  refine ⟨m₁, hruns, h₁.world, ?_⟩
  rw [h₁.flows]
  simp only [World.rouse, Notices.flows, List.map_append, ← Multiset.coe_add]
  abel

theorem reach (w : World) (tick : Nat) : w.Shadowed (w.reach tick) := by
  intro m hm
  refine ⟨_, .of_move (.pass (tick - w.now)) m, ?_, hm.flows⟩
  simp only [Mailroom.move, hm.world]
  show w.bare.reach (w.now + (tick - w.now)) = (w.reach tick).bare
  simp only [World.reach, bare]
  congr 1
  omega

theorem advance (w : World) : w.Shadowed w.advance := by
  unfold World.advance
  split
  · exact .refl w
  · exact (reach w _).trans (wake _ _)

theorem advanceWhile (test : World → Bool) (turns : Nat) (w : World) :
    w.Shadowed (World.advanceWhile test turns w) := by
  induction turns generalizing w with
  | zero => exact .refl w
  | succ turns ih =>
    unfold World.advanceWhile
    split
    · exact (advance w).trans (ih _)
    · exact .refl w

theorem passWhile (w : World) (test : World → Bool) : w.Shadowed (w.passWhile test) :=
  (turnReady w).trans (advanceWhile _ _ _)

theorem passUntil (w : World) (rank : Rank) (tick : Nat) : w.Shadowed (w.passUntil rank tick) := by
  unfold World.passUntil
  exact (((passWhile w _).trans (reach _ _)).trans (wake _ _)).trans (rouse _)

theorem passForRoom (w : World) : w.Shadowed w.passForRoom := by
  unfold World.passForRoom
  split
  · exact .refl w
  · exact passWhile w _

theorem settle (w : World) : w.Shadowed w.settle := passWhile w _

/-- **A wait**: what the notices under way do meanwhile, tasks can do. -/
theorem await (w : World) (rank : Rank) (wt : Wait) (limit : Option Nat) :
    w.Shadowed (w.await rank wt limit).2 := by
  unfold World.await
  split
  · exact .refl w
  · exact passUntil w rank _
  · exact passForRoom w
  · exact .refl w

end Shadowed

end World

end Takeaway
