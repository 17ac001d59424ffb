import Takeaway.Menu
import Takeaway.Work

/-!
The kitchen: how it is asked for units, and how it prepares them. A request is refused as a whole
before anything is prepared; lines are prepared one after the other, each after the time that its
item takes.
-/

namespace Takeaway.Kitchen

/-- Asks for units of an item for an order. -/
def request (p : RetryPolicy) (n : OrderNumber) (i : Item) : Work RequestKey := do
  let key ← Flow.ask .freshKey
  Work.publish p (.itemRequested n i key (← Flow.ask .clock))
  Flow.count .kitchenRequests
  return key

/-- The time that the kitchen takes for an item. -/
def preparation (menu : Menu) (scale : Double) (item : String) : Except Refusal Span :=
  (menu.preparation item).map fun s => s.scaled scale

/-- The lines of a request with the time that each takes. -/
def plan (menu : Menu) (scale : Double) (lines : List Item) : Except Refusal (List (Item × Span)) :=
  lines.mapM fun i => (preparation menu scale i.name).map fun s => (i, s)

/-- Prepares the lines of a plan. -/
def cook : List (Item × Span) → Flow Unit
  | [] => .done ()
  | (i, s) :: r => do
    if i.quantity.units ≠ 0 then
      Flow.pause s
      addUnits i.name i.quantity
    cook r

/-- Prepares what was asked for. -/
def prepare (menu : Menu) (scale : Double) (lines : List Item) : Work Unit := do
  cook (← Work.ofRefusal (plan menu scale lines))

end Takeaway.Kitchen
