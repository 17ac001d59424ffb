import Takeaway.Proofs.Message.Broker
import Takeaway.Proofs.Message.Task

/-!
Notices from many callers at once, with a limited number of places for their tasks. Who finds no
place waits in line; a place that is given back goes to the first in line, and who waits until no
task is left keeps the places that it has got so far. Main statement: a step of a task that owes its
message comes nearer to the end of the task, or the message is sent, or its failure counted.
-/

namespace Takeaway

/-- A message that was handed in, with the number of the call. -/
structure Parcel where
  serial : Nat
  envelope : Envelope
deriving DecidableEq

/-- What is left to do of the task of a parcel. -/
structure Errand where
  parcel : Parcel
  flow : Flow Unit

/-- The parcel of a task that is not at its end. -/
def Errand.due (t : Errand) : List Parcel := if t.flow.isDone then [] else [t.parcel]

/-- Somebody who waits for places. -/
inductive Waiter where
  /-- A caller, who needs one place. -/
  | caller (p : Parcel)
  /-- One who needs all places and keeps those that it has got so far. -/
  | drain (kept : Nat)
deriving DecidableEq

namespace Waiter

/-- The places that one has who waits for more. -/
def kept : Waiter → Nat
  | caller _ => 0
  | drain k => k

/-- The parcel of a caller. -/
def parcel? : Waiter → Option Parcel
  | caller p => some p
  | drain _ => none

/-- The places that those in a line have. -/
def keptBy (l : List Waiter) : Nat := (l.map kept).sum

/-- The parcels of the callers in a line. -/
def parcels (l : List Waiter) : List Parcel := l.filterMap parcel?

variable {n k : Nat} {p : Parcel} {x : Waiter} {l l' : List Waiter}

@[simp] theorem keptBy_nil : keptBy [] = 0 := rfl

@[simp] theorem keptBy_cons : keptBy (x :: l) = x.kept + keptBy l := List.sum_cons

@[simp] theorem keptBy_append : keptBy (l ++ l') = keptBy l + keptBy l' := by
  simp [keptBy]

@[simp] theorem parcels_nil : parcels [] = [] := rfl

@[simp] theorem parcels_caller : parcels (caller p :: l) = p :: parcels l := rfl

@[simp] theorem parcels_drain : parcels (drain k :: l) = parcels l := rfl

@[simp] theorem parcels_append : parcels (l ++ l') = parcels l ++ parcels l' :=
  List.filterMap_append

/-- Nobody in the line has all of the `n` places, and only the first has any. -/
structure Patient (n : Nat) (l : List Waiter) : Prop where
  wants : ∀ x ∈ l, x.kept < n
  first : l.Pairwise fun _ x => x.kept = 0

namespace Patient

theorem tail (h : Patient n (x :: l)) : Patient n l :=
  ⟨(List.forall_mem_cons.1 h.wants).2, (List.pairwise_cons.1 h.first).2⟩

/-- The first in line has got more places. -/
theorem cons_of_lt (h : Patient n (x :: l)) (hk : k < n) : Patient n (drain k :: l) :=
  ⟨List.forall_mem_cons.2 ⟨hk, h.tail.wants⟩, List.pairwise_cons.2 (List.pairwise_cons.1 h.first)⟩

/-- One more gets in line. -/
theorem append (h : Patient n l) (hx : x.kept < n) (hnone : l ≠ [] → x.kept = 0) :
    Patient n (l ++ [x]) where
  wants := List.forall_mem_append.2 ⟨h.wants, List.forall_mem_singleton.2 hx⟩
  first := List.pairwise_append.2 ⟨h.first, List.pairwise_singleton .., fun _ hy =>
    List.forall_mem_singleton.2 (hnone (List.ne_nil_of_mem hy))⟩

/-- The places of the first in line are all that those in line have. -/
theorem keptBy_lt (h : Patient n l) (hn : 0 < n) : keptBy l < n := by
  cases l with
  | nil => exact hn
  | cons x l =>
    have hrest : keptBy l = 0 := by
      refine List.sum_eq_zero fun k hk => ?_
      obtain ⟨y, hy, rfl⟩ := List.mem_map.1 hk
      exact (List.pairwise_cons.1 h.first).1 y hy
    rw [keptBy_cons, hrest]
    exact h.wants x List.mem_cons_self

end Patient

end Waiter

/-- The notices of a world and all who hand them in. -/
structure Mailroom where
  world : World
  /-- The number of places that nobody has. -/
  free : Nat
  /-- Those who wait for places, the first in line first. -/
  line : List Waiter := []
  /-- The parcels of callers that have a place and have not begun the task. -/
  admitted : List Parcel := []
  /-- The tasks, each of which has a place. -/
  tasks : List Errand := []
  /-- The number of those who have waited for all places and have them now. -/
  drained : Nat := 0
  /-- What was handed in. -/
  calls : List Parcel := []
  /-- What was sent. -/
  sent : List Parcel := []
  /-- What was counted as failed. -/
  failed : List Parcel := []

/-- What an action of a task comes to: an attempt to send may be made to fail. -/
def World.answer (w : World) (fault : Option MessageFailure) : (a : Action) → a.Answer × World
  | .send e =>
    match fault with
    | some f => (.error f, w)
    | none => w.perform (.send e)
  | a => w.perform a

/-- Whether an action has sent a message. -/
def Action.hasSent : (a : Action) → a.Answer → Bool
  | .send _, r => r.isOk
  | _, _ => false

/-- Whether an action counts a notice as failed. -/
def Action.countsFailed : Action → Bool
  | .count .notificationsFailed _ => true
  | _ => false

/-- Between the one world and the other no message was sent and no notice counted as failed. -/
structure World.Unheard (w w' : World) : Prop where
  topic : w'.topic = w.topic
  notices : w'.notices = w.notices
  total : w'.broker.total = w.broker.total
  records : w'.broker.records = w.broker.records
  history : w'.broker.history = w.broker.history
  failures : w'.metrics.value .notificationsFailed = w.metrics.value .notificationsFailed

protected theorem World.Unheard.refl (w : World) : w.Unheard w := ⟨rfl, rfl, rfl, rfl, rfl, rfl⟩

namespace Mailroom

/-- What can happen next. -/
inductive Move where
  /-- A message is handed in. -/
  | call (e : Envelope)
  /-- A caller that has a place begins the task and returns. -/
  | begins (k : Nat)
  /-- A task goes on by one step; an attempt to send may be made to fail. -/
  | step (k : Nat) (fault : Option MessageFailure)
  /-- Somebody begins to wait until no task is left. -/
  | drain
  /-- One who has waited for that gives the places back and returns. -/
  | returns
  /-- From now on, so many attempts to send fail, or all of them. -/
  | trouble (failing : Nat) (isUp : Bool)
  /-- Time passes. -/
  | pass (ticks : Nat)

/-- The number of places. -/
def places (m : Mailroom) : Nat := max m.world.notices.limit 1

/-- A place is given back, and goes to the first in line. -/
def giveOne (m : Mailroom) : Mailroom :=
  match m.line with
  | [] => { m with free := m.free + 1 }
  | .caller p :: rest => { m with line := rest, admitted := m.admitted ++ [p] }
  | .drain k :: rest =>
    if k + 1 = m.places then { m with line := rest, drained := m.drained + 1 }
    else { m with line := .drain (k + 1) :: rest }

/-- Places are given back, one after the other. -/
def give : (n : Nat) → Mailroom → Mailroom
  | 0, m => m
  | n + 1, m => give n m.giveOne

/-- Hands in a message. -/
def call (m : Mailroom) (e : Envelope) : Mailroom :=
  let p : Parcel := ⟨m.calls.length, e⟩
  let m := { m with calls := m.calls ++ [p] }
  if 0 < m.free then { m with free := m.free - 1, admitted := m.admitted ++ [p] }
  else { m with line := m.line ++ [.caller p] }

/-- Begins the task of an admitted parcel. -/
def begins (m : Mailroom) (k : Nat) : Mailroom :=
  match m.admitted[k]? with
  | none => m
  | some p =>
    { m with
      admitted := m.admitted.eraseIdx k
      tasks := m.tasks ++ [⟨p, noticeTask m.world.notices.policy p.envelope⟩] }

/-- One step of a task. A pause may be over at any time; a task that is at its end gives its place
back. -/
def step (m : Mailroom) (k : Nat) (fault : Option MessageFailure) : Mailroom :=
  match m.tasks[k]? with
  | none => m
  | some t =>
    match t.flow with
    | .done () => giveOne { m with tasks := m.tasks.eraseIdx k }
    | .wait _ _ next => { m with tasks := m.tasks.set k ⟨t.parcel, next true⟩ }
    | .act a next =>
      let (x, w) := m.world.answer fault a
      { m with
        world := w
        tasks := m.tasks.set k ⟨t.parcel, next x⟩
        sent := if a.hasSent x then m.sent ++ [t.parcel] else m.sent
        failed := if a.countsFailed then m.failed ++ [t.parcel] else m.failed }

/-- Takes the free places, and waits for the others if there are any. -/
def drain (m : Mailroom) : Mailroom :=
  if m.free = m.places then { m with free := 0, drained := m.drained + 1 }
  else { m with free := 0, line := m.line ++ [.drain m.free] }

/-- Gives all places back. -/
def returns (m : Mailroom) : Mailroom :=
  if 0 < m.drained then give m.places { m with drained := m.drained - 1 } else m

/-- The mailroom after something happened. -/
def move (m : Mailroom) : Move → Mailroom
  | .call e => m.call e
  | .begins k => m.begins k
  | .step k fault => m.step k fault
  | .drain => m.drain
  | .returns => m.returns
  | .trouble failing isUp =>
    let b := { m.world.broker with failing := failing, isUp := isUp }
    { m with world := { m.world with broker := b } }
  | .pass ticks => { m with world := m.world.reach (m.world.now + ticks) }

/-- The mailroom after all that happened. -/
def after (m : Mailroom) (moves : List Move) : Mailroom := moves.foldl move m

/-- A mailroom in which nothing was handed in yet. -/
def start (w : World) : Mailroom := { world := w, free := max w.notices.limit 1 }

/-- What is seen from outside as the number of notices under way. -/
def inFlight (m : Mailroom) : Nat := m.places - m.free

/-- The places that those in line have. -/
def kept (m : Mailroom) : Nat := Waiter.keptBy m.line

/-- The parcels of those in line. -/
def waiting (m : Mailroom) : List Parcel := Waiter.parcels m.line

/-- The parcels of the calls that have not returned. -/
def calling (m : Mailroom) : List Parcel := m.waiting ++ m.admitted

/-- The parcels of the tasks that are not at their end. -/
def pending (m : Mailroom) : List Parcel := m.tasks.flatMap Errand.due

/-- The number of those who wait until no task is left, and of those who have and did not return. -/
def draining (m : Mailroom) : Nat := m.line.countP (·.parcel?.isNone) + m.drained

variable {m : Mailroom} {k n : Nat} {t : Errand} {e : Envelope}

/-! ### Steps of a task -/

theorem due_of_owes (h : t.flow.Owes e n) : t.due = [t.parcel] := by
  unfold Errand.due
  rw [h.isDone]
  rfl

theorem due_of_done (h : t.flow = .done ()) : t.due = [] := by
  unfold Errand.due
  rw [h]
  rfl

/-- An element of a list with what is in front of it and behind it. -/
theorem split_of_getElem? {α : Type} {l : List α} {k : Nat} {a : α} (h : l[k]? = some a) :
    ∃ front behind, l = front ++ a :: behind ∧ l.eraseIdx k = front ++ behind ∧
      ∀ b, l.set k b = front ++ b :: behind := by
  obtain ⟨hk, rfl⟩ := List.getElem?_eq_some_iff.1 h
  refine ⟨l.take k, l.drop (k + 1), ?_, List.eraseIdx_eq_take_drop_succ .., fun b => ?_⟩
  · rw [List.getElem_cons_drop, List.take_append_drop]
  · rw [List.set_eq_take_append_cons_drop, if_pos hk]

/-- The mailroom after a step of its `k`-th task, which left this world and this much to do. -/
def goesOn (m : Mailroom) (k : Nat) (t : Errand) (w : World) (x : Flow Unit) : Mailroom :=
  { m with world := w, tasks := m.tasks.set k ⟨t.parcel, x⟩ }

/-- The mailroom after its `k`-th task has sent the message. -/
def delivers (m : Mailroom) (k : Nat) (t : Errand) : Mailroom :=
  let b := m.world.broker.deliver ⟨m.world.topic, t.parcel.envelope⟩
  { m.goesOn k t { m.world with broker := b } (.done ()) with sent := m.sent ++ [t.parcel] }

/-- The mailroom after its `k`-th task has counted the message as failed. -/
def givesUp (m : Mailroom) (k : Nat) (t : Errand) : Mailroom :=
  { m.goesOn k t (m.world.count .notificationsFailed 1) (.done ()) with
    failed := m.failed ++ [t.parcel] }

/-- **One step of a task that owes its message**: it comes nearer to its end and still owes it, or
the message is sent, or its failure counted, and the task is at its end. -/
theorem step_of_owes (ht : m.tasks[k]? = some t) (howes : t.flow.Owes t.parcel.envelope n)
    (fault : Option MessageFailure) :
    (∃ w x j, m.world.Unheard w ∧ j < n ∧ x.Owes t.parcel.envelope j ∧
        m.step k fault = m.goesOn k t w x) ∨
      m.step k fault = m.delivers k t ∨ m.step k fault = m.givesUp k t := by
  obtain ⟨p, x⟩ := t
  dsimp only at howes ⊢
  cases howes with
  | @send n next hsent hfailed =>
    cases fault with
    | some f =>
      refine .inl ⟨m.world, next (.error f), n, .refl m.world, n.lt_succ_self, hfailed f, ?_⟩
      simp only [step, ht]
      rfl
    | none =>
      rcases m.world.broker.send_cases m.world.topic p.envelope with hsend | ⟨f, j, hsend⟩
      · refine .inr (.inl ?_)
        simp only [step, ht, World.answer, World.perform, World.send, hsend, hsent]
        rfl
      · refine .inl ⟨{ m.world with broker := { m.world.broker with failing := j } },
          next (.error f), n, ⟨rfl, rfl, rfl, rfl, rfl, rfl⟩, n.lt_succ_self, hfailed f, ?_⟩
        simp only [step, ht, World.answer, World.perform, World.send, hsend]
        rfl
  | @again n next h =>
    have hunheard : m.world.Unheard (m.world.count .sendRetries 1) :=
      ⟨rfl, rfl, rfl, rfl, rfl, Metrics.value_count ..⟩
    refine .inl ⟨_, next (), n, hunheard, n.lt_succ_self, h, ?_⟩
    simp only [step, ht]
    rfl
  | @pause n s next h =>
    refine .inl ⟨m.world, next true, n, .refl m.world, n.lt_succ_self, h, ?_⟩
    simp only [step, ht]
    rfl
  | @failed n next h =>
    refine .inr (.inr ?_)
    simp only [step, ht, h]
    rfl

end Mailroom

end Takeaway
