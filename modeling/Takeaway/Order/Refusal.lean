import Takeaway.Order.Number
import Takeaway.Order.Status
import Takeaway.Quantity

/-!
The reasons for which something that is asked of an order is refused, and their wording.
-/

namespace Takeaway

/-- Why something was refused. -/
inductive Refusal where
  /-- The item is not on the menu. -/
  | unknownItem (item : String)
  /-- The order does not ask for the item. -/
  | notRequested (item : String)
  /-- A line asks for no units. -/
  | invalidQuantity (item : String) (quantity : Quantity)
  /-- The lines of an item add up to more than a quantity holds. -/
  | tooMany (item : String) (total : Nat)
  /-- The order has no lines. -/
  | noItems
  /-- The status of the order does not allow the action. -/
  | wrongStatus (status : Status) (action : String)
  /-- There is no order with this number. -/
  | unknownOrder (number : OrderNumber)
deriving DecidableEq

/-- The wording of a refusal. -/
def Refusal.message : Refusal → String
  | .unknownItem item => "Unknown item: " ++ item
  | .notRequested item => "Item not in requested list: " ++ item
  | .invalidQuantity item q =>
    "Invalid quantity for " ++ item ++ ": " ++ String.ofList (Text.ofNat q.units) ++
      " (must be greater than 0)"
  | .tooMany item total =>
    "Total quantity for " ++ item ++ " is too large: " ++ String.ofList (Text.ofNat total)
  | .noItems => "Order has no items"
  | .wrongStatus status action =>
    "Invalid status transition: cannot " ++ action ++ " from " ++ status.name ++ " status"
  | .unknownOrder number => "Order not found: " ++ number.text

end Takeaway
