import Takeaway.Order.Item
import Takeaway.Order.Refusal
import Takeaway.Time.Timestamp

/-!
Orders: the lines that were asked for, the log of what was packed, and the status that follows
from the two. Main statement: packing no units changes nothing unless the status did not follow
from the log before.
-/

namespace Takeaway

/-- An order. -/
structure Order where
  number : OrderNumber
  customer : CustomerId
  /-- The lines as they were asked for. -/
  items : List Item
  /-- What was packed, in the order of packing. -/
  packed : List Item
  status : Status
  placedAt : Timestamp
  changedAt : Timestamp
deriving DecidableEq

namespace Order

/-- A new order: nothing is packed. -/
def place (number : OrderNumber) (customer : CustomerId) (items : List Item) (time : Timestamp) :
    Order :=
  ⟨number, customer, items, [], .requested, time, time⟩

/-! ### What is missing -/

/-- Whether the order asks for an item. -/
def requests (o : Order) (name : String) : Bool := o.items.any fun i => i.name == name

/-- The units of an item that the order asks for. -/
def requestedOf (o : Order) (name : String) : Nat := Item.unitsOf name o.items

/-- The units of an item that are packed. -/
def packedOf (o : Order) (name : String) : Nat := Item.unitsOf name o.packed

/-- All units that the order asks for. -/
def requestedUnits (o : Order) : Nat := Item.units o.items

/-- All units that are packed. -/
def packedUnits (o : Order) : Nat := Item.units o.packed

/-- The names of the items that the order asks for, each once. -/
def names (o : Order) : List String := Item.names o.items

/-- The units of an item still to be packed; below zero when too many are packed. -/
def missing (o : Order) (name : String) : Int := (o.requestedOf name : Int) - o.packedOf name

/-- The units of an item still to be packed, for an item that the order asks for. -/
def missing? (o : Order) (name : String) : Except Refusal Int :=
  if o.requests name then .ok (o.missing name) else .error (.notRequested name)

/-- What is still to be packed, one line for each item. -/
def missingItems (o : Order) : List Item :=
  (o.names.filter fun n => decide (0 < o.missing n)).map fun n =>
    ⟨n, Quantity.capped (o.missing n).toNat⟩

/-! ### Packing and handing over -/

/-- The status that follows from what is packed. An order with more units than it asks for is
taken for one that was not begun. -/
def derivedStatus (o : Order) : Status :=
  if o.packedUnits < o.requestedUnits then .inProgress
  else if o.packedUnits = o.requestedUnits then .ready
  else .requested

/-- Logs packed units, none being left out, and lets the status follow as soon as anything is
packed. -/
def pack (o : Order) (name : String) (quantity : Quantity) : Order :=
  let o := if quantity.units = 0 then o else { o with packed := o.packed ++ [⟨name, quantity⟩] }
  if o.packedUnits = 0 then o else { o with status := o.derivedStatus }

/-- Hands the order over. A second time changes nothing. -/
def collect (o : Order) : Except Refusal Order :=
  match o.status with
  | .ready => .ok { o with status := .collected }
  | .collected => .ok o
  | s => .error (.wrongStatus s "collect")

/-- Stamps the time of the last change. -/
def touch (o : Order) (time : Timestamp) : Order := { o with changedAt := time }

/-- Whether the status follows from what is packed. -/
def Settled (o : Order) : Prop := o.packedUnits ≠ 0 → o.status = o.derivedStatus

theorem pack_zero_of_settled {o : Order} (h : o.Settled) (name : String) :
    o.pack name Quantity.zero = o := by
  by_cases hp : o.packedUnits = 0
  · simp [pack, Quantity.zero, hp]
  · have : { o with status := o.derivedStatus } = o := by rw [← h hp]
    simpa [pack, Quantity.zero, hp] using this

end Order

end Takeaway
