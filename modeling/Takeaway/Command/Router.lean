import Takeaway.Command.Basic
import Takeaway.World.Notices

/-!
The router: which handlers a message goes to, and what they make of it. The handlers of one
message begin at the same moment, each with a deadline of its own; one that cannot use the message
rejects it without running anything.
-/

namespace Takeaway

/-- A handler: it turns a message into a command. -/
structure Handler where
  /-- Tells handlers apart that have the same kind. -/
  id : Nat
  kind : String
  build : Envelope → Except Fault Command

/-- The handlers for each event. -/
structure Router where
  timeout : Span := Span.seconds 5
  handlers : Event → List Handler := fun _ => []

namespace Router

/-- The name of what an unroutable message is reported under. -/
def routeKind : String := "route"

/-- A row of handlers with one more, unless it is there already. -/
def enlisted (h : Handler) (hs : List Handler) : List Handler :=
  if hs.any fun g => g.id == h.id then hs else hs ++ [h]

/-- Lets a handler get the messages of some events. -/
def register (r : Router) (events : List Event) (h : Handler) : Router :=
  { r with handlers := fun e =>
      if events.contains e then enlisted h (r.handlers e) else r.handlers e }

/-- The handlers that a message goes to. -/
def resolve (r : Router) (e : Envelope) : Except Fault (List Handler) :=
  match e.event with
  | .error (.unknownEvent tag) => .error (.noHandler tag)
  | .error f => .error (.ofMessage f)
  | .ok event =>
    match r.handlers event with
    | [] => .error (.noHandler event.tag)
    | hs => .ok hs

/-- What a handler does with a message. -/
def handle (r : Router) (h : Handler) (e : Envelope) : Flow CommandResult :=
  match h.build e with
  | .error f => do
    Flow.count (.commands h.kind .rejected)
    return ⟨h.kind, some f⟩
  | .ok command => do
    let d ← Flow.ask (.deadline r.timeout)
    let fault := (← command.run d).fault?
    Flow.count (.commandTimes h.kind)
    Flow.count (.commands h.kind (if fault.isNone then .success else .failure))
    return ⟨h.kind, fault⟩

/-- What is to be done about a message, for each of its handlers. A message without handlers is
counted and reported. -/
def flows (r : Router) (e : Envelope) : List (Flow CommandResult) :=
  match r.resolve e with
  | .error f => [do Flow.count .unroutedEvents; return ⟨routeKind, some f⟩]
  | .ok hs => hs.map fun h => r.handle h e

/-- Sends a message to its handlers, one after the other, and collects the results in their order. -/
def route (r : Router) (e : Envelope) (w : World) : List CommandResult × World :=
  Flow.runEach (r.flows e) w

end Router

end Takeaway
