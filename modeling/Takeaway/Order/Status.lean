/-!
The status of an order. It follows from what is packed until the order is handed over.
-/

namespace Takeaway

/-- How far an order has come. -/
inductive Status where
  /-- Nothing is packed yet. -/
  | requested
  /-- Some, but not all, units are packed. -/
  | inProgress
  /-- Every unit is packed. -/
  | ready
  /-- The customer has taken the order. -/
  | collected
deriving DecidableEq, Inhabited

namespace Status

/-- All statuses, in the order in which an order goes through them. -/
def all : List Status := [.requested, .inProgress, .ready, .collected]

/-- The name of a status. -/
def name : Status → String
  | .requested => "REQUESTED"
  | .inProgress => "IN_PROGRESS"
  | .ready => "READY"
  | .collected => "COLLECTED"

/-- The status with the given name. -/
def named? (s : String) : Option Status := all.find? fun t => t.name == s

/-- The place of a status in the life of an order. -/
def rank : Status → Nat
  | .requested => 0
  | .inProgress => 1
  | .ready => 2
  | .collected => 3

/-- Whether an order of this status waits for units. -/
def isOpen (s : Status) : Bool := s = .requested || s = .inProgress

/-- Whether an order of this status can be handed over. -/
def canCollect (s : Status) : Bool := s = .ready

/-- Whether an order of this status is done with. -/
def isFinal (s : Status) : Bool := s = .collected

@[simp] theorem named?_name (s : Status) : named? s.name = some s := by cases s <;> decide

end Status

end Takeaway
