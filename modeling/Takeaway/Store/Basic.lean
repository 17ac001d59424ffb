import Takeaway.Fault
import Takeaway.Index
import Takeaway.Order.Basic

/-!
The order store: orders by number, the numbers that were handed out, and whether it answers at
all. A call that fails changes nothing.
-/

namespace Takeaway

/-- Which orders are looked for. -/
structure OrderFilter where
  /-- The statuses that pass; without a list every status does. -/
  statuses : Option (List Status) := none
  /-- The item that an order has to ask for. -/
  item : Option String := none
deriving DecidableEq

namespace OrderFilter

/-- Every order passes. -/
def all : OrderFilter := {}

/-- The orders that wait for units. -/
def waiting : OrderFilter := { statuses := some [.requested, .inProgress] }

/-- Of the orders that pass, those that ask for an item. -/
def requesting (f : OrderFilter) (item : String) : OrderFilter := { f with item := some item }

/-- Whether an order passes. -/
def accepts (f : OrderFilter) (o : Order) : Bool :=
  f.statuses.all (fun ss => ss.contains o.status) && f.item.all (fun i => o.requests i)

end OrderFilter

/-- A store of orders. -/
structure Store where
  orders : Index OrderNumber Order := ∅
  /-- The largest number that was handed out or stored. It has no bound here: where the next number
  matters, whether that fits is a condition of what is said. -/
  last : Int := 0
  answers : Bool := true
deriving DecidableEq

namespace Store

/-- A store that is switched off fails. -/
def check (s : Store) : Except Outage Unit :=
  if s.answers then .ok () else .error ⟨"in-memory store switched off"⟩

/-- Hands out the next order number. -/
def nextNumber (s : Store) : Except Outage (OrderNumber × Store) := do
  s.check
  return (⟨s.last + 1⟩, { s with last := s.last + 1 })

/-- The order with the given number. -/
def get? (s : Store) (n : OrderNumber) : Except Outage (Option Order) := do
  s.check
  return s.orders.find? n

/-- The orders that pass, in ascending order of number. -/
def find (s : Store) (f : OrderFilter) : Except Outage (List Order) := do
  s.check
  return s.orders.values.filter f.accepts

/-- Writes an order, whatever stood under its number, and stamps it. -/
def upsert (s : Store) (o : Order) (time : Timestamp) : Except Outage Store := do
  s.check
  return { s with
    orders := s.orders.insert o.number (o.touch time), last := max s.last o.number.value }

end Store

end Takeaway
