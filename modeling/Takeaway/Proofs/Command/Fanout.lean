import Takeaway.Proofs.Command.Handling
import Takeaway.Proofs.Flow.Ceasing
import Takeaway.Proofs.World.Elapsing

/-!
A message on its way through its handlers, one step at a time. Each handler has a task of its own,
which makes a command of the message, has it run by itself, waits for it to end, and hands over what
became of it through a channel with limited room. The tasks, the one who collects the results and the
notices under way go on in any order, one action at a time; the clock moves when nothing else does.
Main statements: what a task does next depends on the parts of the world that its command keeps to,
it leaves alone all others, and it counts its result once.
-/

namespace Takeaway

open World (Alike)

/-- How far the task of a handler has come. -/
inductive Stage where
  /-- It has not begun. -/
  | fresh
  /-- Its command is under way. -/
  | running (x : Flow Ending)
  /-- Its command sleeps until a tick. -/
  | asleep (tick : Nat) (x : Flow Ending)
  /-- Its command has ended, in whichever way. -/
  | ended (e : Ending)
  /-- It has a result to hand over. -/
  | answering (r : CommandResult)
  /-- It is over, with the result that it has handed over, if it did not break off. -/
  | gone (handed : Option CommandResult)

namespace Stage

/-- Whether a task is over. -/
def isOver : Stage → Bool
  | gone _ => true
  | _ => false

/-- Whether a task has begun a command and has no result yet. -/
def isUnderWay : Stage → Bool
  | running _ | asleep _ _ | ended _ => true
  | _ => false

/-- Whether a task has a result to hand over. -/
def isAnswering : Stage → Bool
  | answering _ => true
  | _ => false

/-- The result that a task has handed over. -/
def handed? : Stage → Option CommandResult
  | gone r => r
  | _ => none

/-- The tick that a task sleeps until. -/
def timer? : Stage → Option Nat
  | asleep tick _ => some tick
  | _ => none

/-- The next step of a command under way, unless it has to wait: for room, or without end. -/
def goOn (w : World) : Flow Ending → Option (Stage × World)
  | .done e => some (ended e, w)
  | .act a next => some (running (next (w.perform a).1), (w.perform a).2)
  | .wait wt limit next =>
    match wt.outcome w.now limit with
    | .now reached => some (running (next reached), w)
    | .later tick reached => some (asleep tick (next reached), w)
    | .room => if w.notices.hasRoom then some (running (next true), w) else none
    | .never => none

end Stage

/-- A message that goes to handlers. -/
structure Dispatch where
  message : Envelope
  /-- The time that each command is given. -/
  timeout : Span
  /-- The last tick that the clock can tell; a task whose deadline is later breaks off. -/
  horizon : Nat

/-- The tasks of the handlers of a message, and the one who collects the results. -/
structure Fanout where
  world : World
  tasks : List (Handler × Stage)
  /-- The results that were handed over and not collected yet. -/
  channel : List CommandResult := []
  /-- How many results the channel holds. -/
  room : Nat
  /-- The results that were collected. -/
  results : List CommandResult := []

namespace Fanout

/-- The ticks at which something goes on that waits for them. -/
def timers (f : Fanout) : List Nat :=
  f.tasks.filterMap (·.2.timer?) ++ f.world.notices.asleep.map (·.1)

/-- All results are collected: the channel is empty, and nobody is left to hand over another. -/
structure Returned (f : Fanout) : Prop where
  channel : f.channel = []
  tasks : ∀ t ∈ f.tasks, t.2.isOver = true

end Fanout

namespace Dispatch

/-- The next step of the task of a handler, unless it has to wait. -/
def step (d : Dispatch) (h : Handler) (w : World) : Stage → Option (Stage × World)
  | .fresh =>
    match h.build d.message with
    | .error f => some (.answering ⟨h.kind, some f⟩, w.count (.commands h.kind .rejected) 1)
    | .ok c =>
      let deadline := w.deadline d.timeout
      some (if deadline.tick ≤ d.horizon then .running (c.run deadline) else .gone none, w)
  | .running x => Stage.goOn w x
  | .asleep tick x => if tick ≤ w.now then some (.running x, w) else none
  | .ended e =>
    let result := if e.fault?.isNone then Series.Result.success else .failure
    some (.answering ⟨h.kind, e.fault?⟩,
      (w.count (.commandTimes h.kind) 1).count (.commands h.kind result) 1)
  | .answering _ | .gone _ => none

/-- Nothing can go on until time has passed, and somebody is not over yet. -/
structure Quiet (d : Dispatch) (f : Fanout) : Prop where
  channel : f.channel = []
  waiting : ∀ t ∈ f.tasks, d.step t.1 f.world t.2 = none ∧ t.2.isAnswering = false
  pending : ∃ t ∈ f.tasks, t.2.isOver = false
  ready : f.world.notices.ready = []

/-- What can happen next. -/
inductive Steps (d : Dispatch) (f : Fanout) : Fanout → Prop where
  /-- A task goes on. -/
  | goes {front behind : List (Handler × Stage)} {h : Handler} {st st' : Stage} {w : World}
      (htasks : f.tasks = front ++ (h, st) :: behind)
      (hstep : d.step h f.world st = some (st', w)) :
      d.Steps f { f with world := w, tasks := front ++ (h, st') :: behind }
  /-- A task hands over its result, if the channel has room for it. -/
  | hands {front behind : List (Handler × Stage)} {h : Handler} {r : CommandResult}
      (htasks : f.tasks = front ++ (h, .answering r) :: behind)
      (hroom : f.channel.length < f.room) :
      d.Steps f { f with
        tasks := front ++ (h, .gone (some r)) :: behind, channel := f.channel ++ [r] }
  /-- A result is collected. -/
  | takes {r : CommandResult} {rest : List CommandResult} (hchannel : f.channel = r :: rest) :
      d.Steps f { f with channel := rest, results := f.results ++ [r] }
  /-- A notice goes on. -/
  | stirs {w : World} (hstirs : f.world.Stirs w) : d.Steps f { f with world := w }
  /-- Time passes, and nobody sleeps longer than until the tick that is waited for. -/
  | passes {tick : Nat} (hquiet : d.Quiet f) (hlater : f.world.now < tick)
      (htimers : ∀ t ∈ f.timers, tick ≤ t) :
      d.Steps f { f with world := f.world.reach tick }

/-- What can come of it. -/
def Reaches (d : Dispatch) : Fanout → Fanout → Prop := Relation.ReflTransGen d.Steps

end Dispatch

/-- A message begins its way through the handlers that it goes to. One that goes to none is counted,
and reported by a result that is there from the beginning. -/
def Router.fanout (r : Router) (m : Envelope) (w : World) : Fanout :=
  match r.resolve m with
  | .error f =>
    { world := w.count .unroutedEvents 1, tasks := [], channel := [⟨routeKind, some f⟩], room := 1 }
  | .ok hs => { world := w, tasks := hs.map (·, .fresh), room := hs.length }

/-- A message has come through its handlers, and all results are collected. -/
def Router.Returns (r : Router) (horizon : Nat) (m : Envelope) (w : World) (f : Fanout) : Prop :=
  Dispatch.Reaches ⟨m, r.timeout, horizon⟩ (r.fanout m w) f ∧ f.Returned

/-- The results that may be collected of a message. -/
def Router.Collects (r : Router) (horizon : Nat) (m : Envelope) (w : World)
    (results : List CommandResult) : Prop :=
  ∃ f, r.Returns horizon m w f ∧ f.results = results

variable {d : Dispatch} {h : Handler} {w w' v : World} {P Q : Part → Prop} {st st' : Stage}

/-! ### Steps -/

namespace Stage

variable {x : Flow Ending}

/-- What a step of a command does: it ends, acts, or gets beyond a wait or to sleep. -/
theorem goOn_cases (hstep : goOn w x = some (st', w')) :
    (∃ e, x = .done e ∧ st' = ended e ∧ w' = w) ∨
      (∃ a next, x = .act a next ∧ st' = running (next (w.perform a).1) ∧
        w' = (w.perform a).2) ∨
      ∃ wt limit next, x = .wait wt limit next ∧ w' = w ∧
        ((∃ reached, wt.outcome w.now limit = .now reached ∧ st' = running (next reached)) ∨
          (∃ tick reached, wt.outcome w.now limit = .later tick reached ∧
            st' = asleep tick (next reached)) ∨
          wt.outcome w.now limit = .room ∧ w.notices.hasRoom = true ∧
            st' = running (next true)) := by
  cases x with
  | done e =>
    cases hstep
    exact .inl ⟨e, rfl, rfl, rfl⟩
  | act a next =>
    cases hstep
    exact .inr (.inl ⟨a, next, rfl, rfl, rfl⟩)
  | wait wt limit next =>
    refine .inr (.inr ⟨wt, limit, next, rfl, ?_⟩)
    cases ho : wt.outcome w.now limit <;> simp only [goOn, ho] at hstep
    case now reached =>
      cases hstep
      exact ⟨rfl, .inl ⟨reached, rfl, rfl⟩⟩
    case later tick reached =>
      cases hstep
      exact ⟨rfl, .inr (.inl ⟨tick, reached, rfl, rfl⟩)⟩
    case room =>
      split at hstep
      · next hroom =>
        cases hstep
        exact ⟨rfl, .inr (.inr ⟨rfl, hroom, rfl⟩)⟩
      · cases hstep
    case never => cases hstep

/-- What is left to do of a task comes of a command that its handler made of a message, and keeps to
some parts of the world. -/
def KeepsTo (h : Handler) (m : Envelope) (P : Part → Prop) : Stage → Prop
  | running x | asleep _ x => (∃ c, h.build m = .ok c) ∧ x.KeepsTo P
  | ended _ => ∃ c, h.build m = .ok c
  | _ => True

theorem KeepsTo.mono {h : Handler} {m : Envelope} {st : Stage} (hst : st.KeepsTo h m P)
    (hQ : ∀ p, P p → Q p) : st.KeepsTo h m Q := by
  cases st with
  | running x => exact ⟨hst.1, hst.2.mono hQ⟩
  | asleep tick x => exact ⟨hst.1, hst.2.mono hQ⟩
  | ended e => exact hst
  | _ => trivial

/-- What was counted of the handling of a message so far. -/
def booked (h : Handler) (m : Envelope) : Stage → List Series
  | answering r | gone (some r) => h.counted m r
  | _ => []

/-- A command under way does the same in a world that is the same in the parts it keeps to. -/
theorem goOn_alike (hx : x.KeepsTo P) (hcounts : ¬ P .counts) (halike : Alike P w v)
    (hnow : v.now = w.now) (hstep : goOn w x = some (st', w')) :
    ∃ v', goOn v x = some (st', v') ∧ Alike P w' v' := by
  rcases goOn_cases hstep with ⟨e, rfl, rfl, rfl⟩ | ⟨a, next, rfl, rfl, rfl⟩ |
    ⟨wt, limit, next, rfl, rfl, hwait⟩
  · exact ⟨v, rfl, halike⟩
  · obtain ⟨hanswer, hafter⟩ := halike.perform hnow hx.1 hcounts
    exact ⟨_, by rw [goOn, hanswer], hafter⟩
  · refine ⟨v, ?_, halike⟩
    rcases hwait with ⟨reached, ho, rfl⟩ | ⟨tick, reached, ho, rfl⟩ | ⟨ho, hroom, rfl⟩ <;>
      simp only [goOn, hnow, ho]
    -- only who waits for room depends on more than the clock
    obtain rfl := World.eq_slot_of_room ho
    obtain ⟨-, -, hnotices⟩ := halike.mail (hx.1 _ rfl)
    rw [hnotices, if_pos hroom]

/-- A command under way leaves alone what it does not keep to. -/
theorem goOn_apart (hx : x.KeepsTo P) (hapart : ∀ p, P p → ¬ Q p)
    (hstep : goOn w x = some (st', w')) : Alike Q w w' := by
  rcases goOn_cases hstep with ⟨e, rfl, rfl, rfl⟩ | ⟨a, next, rfl, rfl, rfl⟩ |
    ⟨wt, limit, next, rfl, rfl, -⟩
  · exact .refl Q w'
  · exact World.alike_perform (fun p hp => hapart p (hx.1 p hp)) w
  · exact .refl Q w'

end Stage

namespace Dispatch

/-- What a step does: it rejects the message, begins a command or breaks off, goes on with a command,
wakes up, or reports how a command ended. -/
theorem step_cases (hstep : d.step h w st = some (st', w')) :
    (∃ f, st = .fresh ∧ h.build d.message = .error f ∧ st' = .answering ⟨h.kind, some f⟩ ∧
        w' = w.count (.commands h.kind .rejected) 1) ∨
      (∃ c, st = .fresh ∧ h.build d.message = .ok c ∧ w' = w ∧
        st' = if (w.deadline d.timeout).tick ≤ d.horizon then
          .running (c.run (w.deadline d.timeout)) else .gone none) ∨
      (∃ x, st = .running x ∧ Stage.goOn w x = some (st', w')) ∨
      (∃ tick x, st = .asleep tick x ∧ tick ≤ w.now ∧ st' = .running x ∧ w' = w) ∨
      ∃ e, st = .ended e ∧ st' = .answering ⟨h.kind, e.fault?⟩ ∧
        w' = (w.count (.commandTimes h.kind) 1).count
          (.commands h.kind (if e.fault?.isNone then .success else .failure)) 1 := by
  cases st with
  | fresh =>
    cases hb : h.build d.message <;> simp only [step, hb] at hstep <;> cases hstep
    · exact .inl ⟨_, rfl, rfl, rfl, rfl⟩
    · exact .inr (.inl ⟨_, rfl, rfl, rfl, rfl⟩)
  | running x => exact .inr (.inr (.inl ⟨x, rfl, hstep⟩))
  | asleep tick x =>
    simp only [step] at hstep
    split at hstep
    · next htick =>
      cases hstep
      exact .inr (.inr (.inr (.inl ⟨tick, x, rfl, htick, rfl, rfl⟩)))
    · cases hstep
  | ended e =>
    cases hstep
    exact .inr (.inr (.inr (.inr ⟨e, rfl, rfl, rfl⟩)))
  | answering r => cases hstep
  | gone r => cases hstep

/-- A step takes no time. -/
theorem step_now (hstep : d.step h w st = some (st', w')) : w'.now = w.now := by
  rcases step_cases hstep with ⟨f, -, -, -, rfl⟩ | ⟨c, -, -, rfl, -⟩ | ⟨x, -, hx⟩ |
    ⟨tick, x, -, -, -, rfl⟩ | ⟨e, -, -, rfl⟩
  · rfl
  · rfl
  · rcases Stage.goOn_cases hx with ⟨e, -, -, rfl⟩ | ⟨a, next, -, -, rfl⟩ |
      ⟨wt, limit, next, -, rfl, -⟩
    · rfl
    · exact World.perform_now w a
    · rfl
  · rfl
  · rfl

/-- A task that goes on was not at its end, and nothing was counted of it. -/
theorem booked_of_step (hstep : d.step h w st = some (st', w')) :
    st.isOver = false ∧ st.isAnswering = false ∧ st.booked h d.message = [] := by
  cases st with
  | answering r => cases hstep
  | gone r => cases hstep
  | _ => exact ⟨rfl, rfl, rfl⟩

/-- After a step a command is under way, or there is a result, or the task has broken off at its
beginning, since the clock cannot tell its deadline. -/
theorem stage_of_step (hstep : d.step h w st = some (st', w')) :
    st'.isUnderWay = true ∨ st'.isAnswering = true ∨
      st = .fresh ∧ d.horizon < (w.deadline d.timeout).tick ∧ st' = .gone none := by
  rcases step_cases hstep with ⟨f, -, -, rfl, -⟩ | ⟨c, rfl, -, -, rfl⟩ | ⟨x, -, hx⟩ |
    ⟨tick, x, -, -, rfl, -⟩ | ⟨e, -, rfl, -⟩
  · exact .inr (.inl rfl)
  · split
    · exact .inl rfl
    · next hlate => exact .inr (.inr ⟨rfl, Nat.lt_of_not_le hlate, rfl⟩)
  · rcases Stage.goOn_cases hx with ⟨e, -, rfl, -⟩ | ⟨a, next, -, rfl, -⟩ |
      ⟨wt, limit, next, -, -, ⟨reached, -, rfl⟩ | ⟨tick, reached, -, rfl⟩ | ⟨-, -, rfl⟩⟩ <;>
      exact .inl rfl
  · exact .inl rfl
  · exact .inr (.inl rfl)

theorem step_keeps (hh : h.KeepsTo d.message P) (hst : st.KeepsTo h d.message P)
    (hstep : d.step h w st = some (st', w')) : st'.KeepsTo h d.message P := by
  rcases step_cases hstep with ⟨f, rfl, -, rfl, -⟩ | ⟨c, rfl, hc, -, rfl⟩ | ⟨x, rfl, hx⟩ |
    ⟨tick, x, rfl, -, rfl, -⟩ | ⟨e, rfl, rfl, -⟩
  · trivial
  · split
    · exact ⟨⟨c, hc⟩, hh c hc _⟩
    · trivial
  · obtain ⟨hbuilt, hkeeps⟩ := hst
    rcases Stage.goOn_cases hx with ⟨e, rfl, rfl, -⟩ | ⟨a, next, rfl, rfl, -⟩ |
      ⟨wt, limit, next, rfl, -, ⟨reached, -, rfl⟩ | ⟨tick, reached, -, rfl⟩ | ⟨-, -, rfl⟩⟩
    · exact hbuilt
    · exact ⟨hbuilt, hkeeps.2 _⟩
    · exact ⟨hbuilt, hkeeps.2 _⟩
    · exact ⟨hbuilt, hkeeps.2 _⟩
    · exact ⟨hbuilt, hkeeps.2 _⟩
  · exact hst
  · trivial

variable (hst : st.KeepsTo h d.message P)
include hst

/-- **A task does the same in a world that is the same in the parts it keeps to.** -/
theorem step_alike (hcounts : ¬ P .counts) (halike : Alike P w v) (hnow : v.now = w.now)
    (hstep : d.step h w st = some (st', w')) :
    ∃ v', d.step h v st = some (st', v') ∧ Alike P w' v' := by
  rcases step_cases hstep with ⟨f, rfl, hf, rfl, rfl⟩ | ⟨c, rfl, hc, rfl, rfl⟩ | ⟨x, rfl, hx⟩ |
    ⟨tick, x, rfl, htick, rfl, rfl⟩ | ⟨e, rfl, rfl, rfl⟩
  · exact ⟨_, by rw [step, hf], halike.count _ _⟩
  · have hdeadline : v.deadline d.timeout = w'.deadline d.timeout := by
      unfold World.deadline
      rw [hnow]
    exact ⟨v, by rw [step, hc, ← hdeadline], halike⟩
  · exact Stage.goOn_alike hst.2 hcounts halike hnow hx
  · exact ⟨v, by rw [step, hnow, if_pos htick], halike⟩
  · exact ⟨_, rfl, (halike.count _ _).count _ _⟩

/-- **A task leaves alone what its command does not keep to.** -/
theorem step_apart (hapart : ∀ p, P p → ¬ Q p) (hstep : d.step h w st = some (st', w')) :
    Alike Q w w' := by
  rcases step_cases hstep with ⟨f, rfl, -, rfl, rfl⟩ | ⟨c, rfl, -, rfl, -⟩ | ⟨x, rfl, hx⟩ |
    ⟨tick, x, rfl, -, -, rfl⟩ | ⟨e, rfl, -, rfl⟩
  · exact .of_same rfl rfl rfl rfl rfl rfl
  · exact .refl Q w'
  · exact Stage.goOn_apart hst.2 hapart hx
  · exact .refl Q w'
  · exact .of_same rfl rfl rfl rfl rfl rfl

/-- **A task counts its result** when it has it, and nothing else for the router. -/
theorem value_step (hcounts : ¬ P .counts) {s : Series} (hs : s.isRouters = true)
    (hstep : d.step h w st = some (st', w')) :
    w'.metrics.value s = w.metrics.value s + (st'.booked h d.message).count s := by
  rcases step_cases hstep with ⟨f, rfl, hf, rfl, rfl⟩ | ⟨c, rfl, -, rfl, rfl⟩ | ⟨x, rfl, hx⟩ |
    ⟨tick, x, rfl, -, rfl, rfl⟩ | ⟨e, rfl, rfl, rfl⟩
  · rw [World.value_count_one, Stage.booked, Handler.counted, hf, List.count_singleton]
  · split <;> rfl
  · rcases Stage.goOn_cases hx with ⟨e, rfl, rfl, rfl⟩ | ⟨a, next, rfl, rfl, rfl⟩ |
      ⟨wt, limit, next, rfl, rfl, ⟨reached, -, rfl⟩ | ⟨tick, reached, -, rfl⟩ | ⟨-, -, rfl⟩⟩
    · rfl
    · exact World.value_perform (fun ha => hcounts (hst.2.1 _ ha)) hs w
    · rfl
    · rfl
    · rfl
  · rfl
  · obtain ⟨c, hc⟩ := hst
    rw [World.value_count_one, World.value_count_one, Stage.booked, Handler.counted, hc,
      List.count_cons, List.count_singleton, Handler.outcome, hc, Nat.add_assoc,
      Nat.add_comm (ite _ _ _)]
    rfl

end Dispatch

end Takeaway
