import Takeaway.Json.Value
import Takeaway.Work

/-!
Commands: the work that a message asks for, under a deadline, and what became of it.
-/

namespace Takeaway

/-- What a crash left behind. -/
inductive Crash where
  | said (text : String)
  | silent
deriving DecidableEq

/-- The wording of a crash. -/
def Crash.message : Crash → String
  | said text => text
  | silent => "unknown panic"

/-- How a command ended. -/
inductive Ending where
  | finished (r : Except Fault Unit)
  | crashed (c : Crash)

/-- The fault that a command ended with. -/
def Ending.fault? : Ending → Option Fault
  | finished (.ok ()) => none
  | finished (.error f) => some f
  | crashed c => some (.crashed c.message)

/-- The work that a message asks for. -/
structure Command where
  run : Deadline → Flow Ending

/-- A command that does not crash. -/
def Command.of {α : Type} (work : Deadline → Work α) : Command where
  run d := do
    match ← (work d).run with
    | .ok _ => return .finished (.ok ())
    | .error f => return .finished (.error f)

/-- What became of a message at one handler. -/
structure CommandResult where
  kind : String
  fault : Option Fault
deriving DecidableEq

namespace CommandResult

/-- Whether all went well. -/
def succeeded (r : CommandResult) : Bool := r.fault.isNone

/-- Whose fault it is, if something went wrong. -/
def category (r : CommandResult) : Option Fault.Category := r.fault.map (·.category)

/-- A result as a document. -/
def document (r : CommandResult) : Json :=
  let error := match r.fault with
    | none => Json.null
    | some f => .record [("category", .text f.category.name), ("message", .text f.message)]
  .record [("commandKind", .text r.kind), ("error", error), ("succeeded", .bool r.succeeded)]

end CommandResult

end Takeaway
