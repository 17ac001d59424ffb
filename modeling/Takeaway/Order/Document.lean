import Takeaway.Json.Decode
import Takeaway.Order.Basic

/-!
Orders as JSON documents: how they are written and read back. The log of packed units may be left
out when an order is read; it is empty then.
-/

namespace Takeaway

open Json (Reader)

/-! ### Parts of an order -/

/-- Reads an order number. -/
def OrderNumber.reader : Reader OrderNumber := fun d =>
  (Reader.whole (Text.fitsSigned 64) d).map OrderNumber.mk

/-- Reads a customer id. -/
def CustomerId.reader : Reader CustomerId := fun d =>
  (Reader.whole (Text.fitsSigned 64) d).map CustomerId.mk

/-- Reads a status by its name. -/
def Status.reader : Reader Status := Reader.oneOf Status.named?

/-- Reads a point in time. -/
def Timestamp.reader : Reader Timestamp := fun d => do
  match Timestamp.read? (← Reader.text d) with
  | some t => .ok t
  | none => .error .mismatched

namespace Item

/-- A line of an order as a document. -/
def document (i : Item) : Json :=
  .record [("name", .text i.name), ("quantity", .int i.quantity.units)]

/-- Reads a line of an order. -/
def reader : Reader Item := fun d => do
  let f ← Reader.fields [Reader.field "name" Reader.text, Reader.field "quantity" Reader.quantity] d
  return ⟨← f.get "name" Reader.text, ← f.get "quantity" Reader.quantity⟩

end Item

namespace Order

/-- An order as a document. -/
def document (o : Order) : Json := .record
  [("orderNumber", .int o.number.value),
   ("customerId", .int o.customer.value),
   ("items", .list (o.items.map Item.document)),
   ("packedItems", .list (o.packed.map Item.document)),
   ("status", .text o.status.name),
   ("createdAt", .text o.placedAt.text),
   ("modifiedAt", .text o.changedAt.text)]

/-- The fields of an order. -/
def fields : List Reader.Field :=
  [Reader.field "orderNumber" OrderNumber.reader,
   Reader.field "customerId" CustomerId.reader,
   Reader.field "items" (Reader.list Item.reader),
   Reader.fieldOr "packedItems" (Reader.list Item.reader),
   Reader.field "status" Status.reader,
   Reader.field "createdAt" Timestamp.reader,
   Reader.field "modifiedAt" Timestamp.reader]

/-- Reads an order. -/
def reader : Reader Order := fun d => do
  let f ← Reader.fields fields d
  let packed ← f.get? "packedItems" (Reader.list Item.reader)
  return {
    number := ← f.get "orderNumber" OrderNumber.reader
    customer := ← f.get "customerId" CustomerId.reader
    items := ← f.get "items" (Reader.list Item.reader)
    packed := packed.getD []
    status := ← f.get "status" Status.reader
    placedAt := ← f.get "createdAt" Timestamp.reader
    changedAt := ← f.get "modifiedAt" Timestamp.reader }

/-- The text of an order. -/
def write (o : Order) : String := o.document.render

/-- Reads an order back from text. -/
def read (s : String) : Except Json.Misread Order := Json.decodeText reader s

end Order

end Takeaway
