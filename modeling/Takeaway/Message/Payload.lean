import Takeaway.Message.Envelope
import Takeaway.RequestKey

/-!
The payloads of messages: lines of items, as they come into stock or are asked of the kitchen, and
the new status of an order.
-/

namespace Takeaway

open Json (Reader)

/-! ### Lines of items -/

/-- A line of a payload as a document. -/
def Item.lineDocument (i : Item) : Json :=
  .record [("itemName", .text i.name), ("quantity", .int i.quantity.units)]

/-- Reads a line of a payload. -/
def Item.lineReader : Reader Item := fun d => do
  let f ← Reader.fields
    [Reader.field "itemName" Reader.text, Reader.field "quantity" Reader.quantity] d
  return ⟨← f.get "itemName" Reader.text, ← f.get "quantity" Reader.quantity⟩

/-- Lines as a document. -/
def Item.linesDocument (l : List Item) : Json := .list (l.map Item.lineDocument)

/-- Reads the lines of a payload. -/
def Item.linesReader : Reader (List Item) := Reader.list Item.lineReader

/-! ### Status updates -/

/-- A new status as a document. -/
def Status.updateDocument (s : Status) : Json := .record [("status", .text s.name)]

/-- Reads a new status. -/
def Status.updateReader : Reader Status := fun d => do
  let f ← Reader.fields [Reader.field "status" Status.reader] d
  f.get "status" Status.reader

/-! ### The messages that the system sends -/

namespace Envelope

/-- An order was placed. -/
def orderPlaced (n : OrderNumber) (time : Timestamp) : Envelope :=
  ((blank time).withEvent .orderPlaced).withOrder n |>.withKey n.text

/-- A customer has come for an order. -/
def orderCollected (n : OrderNumber) (time : Timestamp) : Envelope :=
  ((blank time).withEvent .orderCollected).withOrder n |>.withKey n.text

/-- All open orders are to be looked at again. -/
def sweepRequested (time : Timestamp) : Envelope := (blank time).withEvent .sweepRequested

/-- Units of an item came into stock. -/
def itemAdded (i : Item) (time : Timestamp) : Envelope :=
  ((blank time).withEvent .itemAdded).withKey i.name |>.withJson (Item.linesDocument [i])

/-- The kitchen is asked for units of an item for an order. -/
def itemRequested (n : OrderNumber) (i : Item) (key : RequestKey) (time : Timestamp) :
    Envelope :=
  ((((blank time).withEvent .itemRequested).withOrder n).withKey key.text).withJson
    (Item.linesDocument [i])

/-- The status of an order has changed. -/
def statusUpdated (n : OrderNumber) (s : Status) (time : Timestamp) : Envelope :=
  ((((blank time).withEvent .statusUpdated).withOrder n).withKey n.text).withJson
    s.updateDocument

end Envelope

end Takeaway
