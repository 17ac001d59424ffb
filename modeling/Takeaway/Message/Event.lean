/-!
The events that messages tell of, and the tags that stand for them. Main statement: a tag stands
for at most one event, its own.
-/

namespace Takeaway

/-- What a message tells. -/
inductive Event where
  /-- An order was placed and is to be covered. -/
  | orderPlaced
  /-- Units of an item came into stock. -/
  | itemAdded
  /-- The kitchen is asked for units. -/
  | itemRequested
  /-- A customer has come for an order. -/
  | orderCollected
  /-- All open orders are to be looked at again. -/
  | sweepRequested
  /-- The status of an order has changed. -/
  | statusUpdated
deriving DecidableEq, Inhabited

namespace Event

/-- All events. -/
def all : List Event :=
  [.orderPlaced, .itemAdded, .itemRequested, .orderCollected, .sweepRequested, .statusUpdated]

/-- The tag of an event. -/
def tag : Event → String
  | .orderPlaced => "order-placed"
  | .itemAdded => "item-added-to-stack"
  | .itemRequested => "request-item"
  | .orderCollected => "order-collected"
  | .sweepRequested => "check-missing-items-on-orders"
  | .statusUpdated => "order-status-updated"

/-- The event with the given tag. -/
def ofTag? (s : String) : Option Event := all.find? fun e => e.tag == s

/-- Whether messages of this event are about a single order. -/
def isAboutOrder (e : Event) : Bool := e != .itemAdded && e != .sweepRequested

@[simp] theorem ofTag?_tag (e : Event) : ofTag? e.tag = some e := by cases e <;> decide

theorem mem_all (e : Event) : e ∈ all := by cases e <;> decide

end Event

end Takeaway
