import Takeaway.Menu
import Takeaway.Work

/-!
The desk, where orders are placed and looked up. An order is accepted when it has lines, each for
some units of an item on the menu, and no item adds up to more than a quantity holds.
-/

namespace Takeaway

/-- Work with stored orders that may fail. -/
abbrev DeskWork (α : Type) := ExceptT OrderFault Flow α

namespace Desk

variable {α : Type}

/-- A call of the store as work of the desk. -/
def ofStore (x : Flow (Except Outage α)) : DeskWork α :=
  ExceptT.mk do return (← x).mapError .outage

/-- The first line that is no good by itself. -/
def checkLines (menu : Menu) : List Item → Except Refusal Unit
  | [] => .ok ()
  | i :: r => do
    let _ ← menu.entry i.name
    if i.quantity.units = 0 then .error (.invalidQuantity i.name i.quantity)
    else checkLines menu r

/-- The first item whose lines add up to too many units. -/
def checkTotals (items : List Item) : Except Refusal Unit :=
  match (Item.names items).find? fun n => decide (Quantity.largest < Item.unitsOf n items) with
  | some n => .error (.tooMany n (Item.unitsOf n items))
  | none => .ok ()

/-- Whether lines make an order that is accepted. -/
def check (menu : Menu) (items : List Item) : Except Refusal Unit := do
  if items.isEmpty then .error .noItems
  checkLines menu items
  checkTotals items

/-- Places an order. -/
def place (menu : Menu) (customer : CustomerId) (items : List Item) : DeskWork Order := do
  ExceptT.mk (.done ((check menu items).mapError .refused))
  let n ← ofStore nextNumber
  let o := Order.place n customer items (← Flow.ask .clock)
  ofStore (saveOrder o)
  Flow.count .ordersPlaced
  return o

/-- The order with the given number. -/
def get (n : OrderNumber) : DeskWork (Option Order) := ofStore (fetchOrder n)

/-- The order with the given number, which has to be there. -/
def require (n : OrderNumber) : DeskWork Order := do
  match ← get n with
  | some o => return o
  | none => throw (.refused (.unknownOrder n))

/-- The orders that pass a filter. -/
def list (f : OrderFilter) : DeskWork (List Order) := ofStore (searchOrders f)

end Desk

/-- Work of the desk as work. -/
def Work.ofDesk {α : Type} (x : DeskWork α) : Work α :=
  ExceptT.mk do return (← x.run).mapError Fault.ofOrderFault

end Takeaway
