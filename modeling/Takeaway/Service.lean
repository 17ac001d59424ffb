import Takeaway.Http.Api
import Takeaway.Message.Intake

/-!
The service: an engine that takes in its own messages and answers requests. Everything it does by
itself is cut into turns, which are taken one at a time in the order in which they fall due: a
notice is tried, the broker is read, messages are handed to their handlers, or a handler goes on
until it has to wait. The clock moves when there are no turns left.
-/

namespace Takeaway

/-- Something that a service does in one go. -/
inductive Turn where
  /-- The first notice that is ready is tried. -/
  | notice
  /-- The broker is read. -/
  | read
  /-- The messages that were read are handed to their handlers. -/
  | handle
  /-- A flow goes on. -/
  | flow (x : Flow Unit)
  /-- A flow goes on that has waited for room for a notice; the room is kept for it. -/
  | roomy (x : Flow Unit)

namespace Turn

/-- Whether a notice is tried. -/
def isNotice : Turn → Bool
  | notice => true
  | _ => false

/-- Whether the broker is read. -/
def isRead : Turn → Bool
  | read => true
  | _ => false

/-- Whether messages are handed to their handlers. -/
def isHandle : Turn → Bool
  | handle => true
  | _ => false

/-- Whether room for a notice is kept. -/
def isRoomy : Turn → Bool
  | roomy _ => true
  | _ => false

end Turn

/-- A service. -/
structure Service where
  engine : Engine
  world : World
  intake : Intake
  /-- Whether messages are taken in. -/
  isOpen : Bool := true
  /-- The turns to be taken, the next one first. -/
  agenda : List Turn := []
  /-- The flows that wait for a tick, the earliest first. -/
  asleep : List (Nat × Flow Unit) := []
  /-- The flows that wait for room for one more notice, the next one first. -/
  line : List (Flow Unit) := []

namespace Service

/-- A service with the given settings in which nothing has happened yet. -/
def start (settings : Settings) : Service :=
  let e : Engine := { settings := settings.engine }
  let b := Broker.streaming
  { engine := e
    world := { e.start with topic := settings.topic, broker := b }
    intake := .start b settings.topic e.settings.inbound }

/-! ### Turns that fall due -/

/-- The notices that are under way or have their room kept. -/
def underWay (s : Service) : Nat := s.world.notices.underWay + s.agenda.countP Turn.isRoomy

/-- Whether one more notice may be under way. -/
def hasRoom (s : Service) : Bool := decide (s.underWay < max s.world.notices.limit 1)

/-- The service with one more turn to be taken, unless a turn of the same kind is there. -/
def withTurn (s : Service) (kind : Turn → Bool) (t : Turn) : Service :=
  if s.agenda.any kind then s else { s with agenda := s.agenda ++ [t] }

/-- Gives a turn to each notice that is ready. -/
def rouseNotices (s : Service) : Service :=
  let missing := s.world.notices.ready.length - s.agenda.countP Turn.isNotice
  { s with agenda := s.agenda ++ List.replicate missing .notice }

/-- Gives a turn to the reading of the broker, and one to the messages that were read. -/
def rouseIntake (s : Service) : Service :=
  let s := if s.isOpen && s.intake.canRead s.world.broker then s.withTurn Turn.isRead .read else s
  if s.isOpen && !s.intake.inbox.isEmpty then s.withTurn Turn.isHandle .handle else s

/-- Gives a turn to the next flow that waits for room, if there is room. -/
def rouseLine (s : Service) : Service :=
  match s.line with
  | [] => s
  | x :: r => if s.hasRoom then { s with agenda := s.agenda ++ [.roomy x], line := r } else s

/-- Gives turns to what can go on. -/
def rouse (s : Service) : Service := s.rouseNotices.rouseIntake.rouseLine

/-! ### Taking turns -/

/-- Lets a flow wait. -/
def sleep (s : Service) (tick : Nat) (x : Flow Unit) : Service :=
  { s with asleep := bedded (tick, x) s.asleep }

/-- Lets a flow go on until it ends or has to wait. -/
def goOn : Flow Unit → Service → Service
  | .done (), s => s
  | .act a next, s =>
    let (answer, w) := s.world.perform a
    goOn (next answer) (rouse { s with world := w })
  | .wait wt limit next, s =>
    match wt.outcome s.world.now limit with
    | .now reached => goOn (next reached) s
    | .later tick reached => s.sleep tick (next reached)
    | .room => if s.hasRoom then goOn (next true) s else { s with line := s.line ++ [next true] }
    | .never => s

/-- What is to be done about the messages in the inbox. -/
def handlings (s : Service) : List Turn :=
  s.intake.inbox.flatMap fun m =>
    (s.engine.router.flows m).map fun x => .flow (x.bind fun _ => .done ())

/-- Takes a turn. -/
def take (s : Service) : Turn → Service
  | .notice =>
    match s.world.notices.ready with
    | [] => s
    | n :: r =>
      let w := { s.world with notices := { s.world.notices with ready := r } }
      rouse { s with world := w.turns [n] }
  | .read =>
    let (intake, metrics) := s.intake.readAll s.world.broker s.world.metrics
    rouse { s with intake := intake, world := { s.world with metrics := metrics } }
  | .handle =>
    rouse { s with intake := { s.intake with inbox := [] }, agenda := s.agenda ++ s.handlings }
  | .flow x => goOn x s
  | .roomy x => goOn x s

/-! ### Time -/

/-- The next tick at which something goes on that waits for it. -/
def nextTick? (s : Service) : Option Nat :=
  match s.asleep.head?, s.world.notices.asleep.head? with
  | some x, some n => some (min x.1 n.1)
  | some x, none => some x.1
  | none, n => n.map (·.1)

/-- The service at a tick, if that is still to come; what waits for it has its turn then. -/
def reach (s : Service) (tick : Nat) : Service :=
  let w := (s.world.reach tick).rouse
  let (due, later) := s.asleep.span fun x => decide (x.1 ≤ w.now)
  rouse { s with
    world := w, agenda := s.agenda ++ due.map (fun x => .flow x.2), asleep := later }

/-- Takes turns and lets time pass, for as long as the test holds, until nothing is left to do or the
clock would come to the limit; there is no result if so many turns do not get that far. -/
def pass (test : Service → Bool) (limit : Option Nat) : (turns : Nat) → Service → Option Service
  | 0, _ => none
  | turns + 1, s =>
    if !test s then some s
    else
      match s.agenda with
      | t :: r => pass test limit turns (take { s with agenda := r } t)
      | [] =>
        match s.nextTick? with
        | none => some s
        | some tick =>
          if limit.all fun l => decide (tick < l) then pass test limit turns (s.reach tick)
          else some s

/-- The number of turns after which whoever waits gives up. -/
def patience : Nat := 1000000

/-- Waits, and tells whether what was waited for came before the limit; there is no result if it
does not come. Who waits from outside goes on before those who have their turn at the same tick. -/
def await (s : Service) (wait : Wait) (limit : Option Nat) : Option (Bool × Service) :=
  match wait.outcome s.world.now limit with
  | .now reached => some (reached, s)
  | .later tick reached => do
    let s ← s.pass (fun _ => true) (some tick) patience
    return (reached, s.reach tick)
  | .room => do
    let s ← s.pass (fun s => !s.hasRoom) none patience
    if s.hasRoom then return (true, s) else none
  | .never => none

/-! ### From outside -/

/-- Runs a flow from outside; there is no result if it does not come to an end. -/
def run {α : Type} : Flow α → Service → Option (α × Service)
  | .done a, s => some (a, s)
  | .act a next, s =>
    let (answer, w) := s.world.perform a
    run (next answer) (rouse { s with world := w })
  | .wait wt limit next, s =>
    match s.await wt limit with
    | none => none
    | some (reached, s) => run (next reached) s

/-- Answers a request. -/
def respond (s : Service) (r : Http.Request) : Option (Http.Response × Service) :=
  run (Http.respond s.engine s.world.topic r) s

/-- Lets time pass. -/
def rest (s : Service) (time : Span) : Option Service := (s.await (.pause time) none).map (·.2)

/-- Takes in no more messages, and waits until no notice is under way. -/
def stop (s : Service) : Option Service :=
  pass (fun s => decide (s.underWay ≠ 0)) none patience
    { s with isOpen := false, agenda := s.agenda.filter fun t => !t.isRead && !t.isHandle }

end Service

end Takeaway
