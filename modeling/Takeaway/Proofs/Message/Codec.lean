import Takeaway.Message.Payload
import Takeaway.Proofs.Order.Document

/-!
The messages that the system sends are read back as they were made: the event, the order number,
the lines and the status.
-/

namespace Takeaway

open Json (Reader)

/-! ### Payloads -/

namespace Item

theorem lineReader_lineDocument (i : Item) : lineReader i.lineDocument.doc = .ok i :=
  read_line (by decide) i

theorem linesReader_linesDocument (l : List Item) : linesReader (linesDocument l).doc = .ok l :=
  Reader.list_map fun i _ => i.lineReader_lineDocument

theorem moderate_lineDocument (i : Item) : i.lineDocument.Moderate :=
  ⟨trivial, i.moderate_units, trivial⟩

theorem moderate_linesDocument (l : List Item) : (linesDocument l).Moderate :=
  Json.allModerate_map fun i _ => i.moderate_lineDocument

end Item

theorem Status.updateReader_updateDocument (s : Status) :
    Status.updateReader s.updateDocument.doc = .ok s := by
  cases s <;> rfl

/-! ### Envelopes -/

namespace Envelope

variable {α : Type}

theorem decode_withJson (e : Envelope) (read : Reader α) {j : Json} (h : j.Moderate) :
    (e.withJson j).decode read = (read j.doc).mapError .payload := by
  show (Json.decodeBytes read (Text.toBytes j.chars)).mapError _ = _
  rw [Json.decodeBytes_chars read h]

theorem header?_withHeader_self (e : Envelope) (name value : String) :
    (e.withHeader name value).header? name = some value := Index.find?_insert_self _ _ _

theorem header?_withHeader_of_ne (e : Envelope) {name name' : String} (value : String)
    (h : name ≠ name') : (e.withHeader name value).header? name' = e.header? name' :=
  Index.find?_insert_of_ne _ _ h

theorem event_of_header? {e : Envelope} {v : Event} (h : e.header? eventHeader = some v.tag) :
    e.event = .ok v := by
  unfold event tag required
  rw [h]
  simp [bind, Except.bind]

theorem orderNumber_of_header? {e : Envelope} {n : OrderNumber}
    (h : e.header? orderHeader = some n.text) (hn : n.Fits) : e.orderNumber = .ok n := by
  unfold orderNumber required
  rw [h]
  show (OrderNumber.read n.text).mapError _ = _
  rw [OrderNumber.read_text hn]
  rfl

theorem event_withEvent (e : Envelope) (v : Event) : (e.withEvent v).event = .ok v :=
  event_of_header? (header?_withHeader_self e _ _)

theorem event_withEvent_withOrder (e : Envelope) (v : Event) (n : OrderNumber) :
    ((e.withEvent v).withOrder n).event = .ok v :=
  event_of_header? <|
    (header?_withHeader_of_ne _ _ (by decide)).trans (header?_withHeader_self e _ _)

theorem orderNumber_withOrder (e : Envelope) {n : OrderNumber} (h : n.Fits) :
    (e.withOrder n).orderNumber = .ok n :=
  orderNumber_of_header? (header?_withHeader_self e _ _) h

variable {n : OrderNumber} (i : Item) (k : RequestKey) (s : Status) (t : Timestamp)

/-! ### What is read of the messages that the system sends -/

theorem event_orderPlaced (n : OrderNumber) : (orderPlaced n t).event = .ok .orderPlaced :=
  event_withEvent_withOrder (blank t) .orderPlaced n

theorem orderNumber_orderPlaced (h : n.Fits) : (orderPlaced n t).orderNumber = .ok n :=
  orderNumber_withOrder ((blank t).withEvent .orderPlaced) h

theorem event_orderCollected (n : OrderNumber) : (orderCollected n t).event = .ok .orderCollected :=
  event_withEvent_withOrder (blank t) .orderCollected n

theorem orderNumber_orderCollected (h : n.Fits) : (orderCollected n t).orderNumber = .ok n :=
  orderNumber_withOrder ((blank t).withEvent .orderCollected) h

theorem event_sweepRequested : (sweepRequested t).event = .ok .sweepRequested :=
  event_withEvent _ _

theorem event_itemAdded : (itemAdded i t).event = .ok .itemAdded := event_withEvent (blank t) _

theorem lines_itemAdded : (itemAdded i t).decode Item.linesReader = .ok [i] := by
  unfold itemAdded
  rw [decode_withJson _ _ (Item.moderate_linesDocument [i]), Item.linesReader_linesDocument]
  rfl

theorem event_itemRequested (n : OrderNumber) : (itemRequested n i k t).event = .ok .itemRequested :=
  event_withEvent_withOrder (blank t) .itemRequested n

theorem orderNumber_itemRequested (h : n.Fits) : (itemRequested n i k t).orderNumber = .ok n :=
  orderNumber_withOrder ((blank t).withEvent .itemRequested) h

theorem lines_itemRequested (n : OrderNumber) :
    (itemRequested n i k t).decode Item.linesReader = .ok [i] := by
  unfold itemRequested
  rw [decode_withJson _ _ (Item.moderate_linesDocument [i]), Item.linesReader_linesDocument]
  rfl

theorem event_statusUpdated (n : OrderNumber) : (statusUpdated n s t).event = .ok .statusUpdated :=
  event_withEvent_withOrder (blank t) .statusUpdated n

theorem orderNumber_statusUpdated (h : n.Fits) : (statusUpdated n s t).orderNumber = .ok n :=
  orderNumber_withOrder ((blank t).withEvent .statusUpdated) h

theorem status_statusUpdated (n : OrderNumber) :
    (statusUpdated n s t).decode Status.updateReader = .ok s := by
  have hmoderate : s.updateDocument.Moderate := ⟨trivial, trivial⟩
  unfold statusUpdated
  rw [decode_withJson _ _ hmoderate, Status.updateReader_updateDocument]
  rfl

end Envelope

/-! ### All messages of the system -/

/-- What a message of the system tells. -/
inductive Tiding where
  | orderPlaced (n : OrderNumber)
  | itemAdded (i : Item)
  | itemRequested (n : OrderNumber) (i : Item) (key : RequestKey)
  | orderCollected (n : OrderNumber)
  | sweepRequested
  | statusUpdated (n : OrderNumber) (s : Status)

namespace Tiding

/-- The message that is made of it. -/
def envelope (time : Timestamp) : Tiding → Envelope
  | orderPlaced n => .orderPlaced n time
  | itemAdded i => .itemAdded i time
  | itemRequested n i key => .itemRequested n i key time
  | orderCollected n => .orderCollected n time
  | sweepRequested => .sweepRequested time
  | statusUpdated n s => .statusUpdated n s time

/-- The event that it is about. -/
def event : Tiding → Event
  | orderPlaced _ => .orderPlaced
  | itemAdded _ => .itemAdded
  | itemRequested _ _ _ => .itemRequested
  | orderCollected _ => .orderCollected
  | sweepRequested => .sweepRequested
  | statusUpdated _ _ => .statusUpdated

/-- The order that it is about. -/
def number? : Tiding → Option OrderNumber
  | orderPlaced n | itemRequested n _ _ | orderCollected n | statusUpdated n _ => some n
  | itemAdded _ | sweepRequested => none

/-- The units of an item that it is about. -/
def item? : Tiding → Option Item
  | itemAdded i | itemRequested _ i _ => some i
  | _ => none

/-- The status that it is about. -/
def status? : Tiding → Option Status
  | statusUpdated _ s => some s
  | _ => none

variable (t : Tiding) (time : Timestamp)

theorem event_envelope : (t.envelope time).event = .ok t.event := by
  cases t with
  | orderPlaced n => exact Envelope.event_orderPlaced time n
  | itemAdded i => exact Envelope.event_itemAdded i time
  | itemRequested n i key => exact Envelope.event_itemRequested i key time n
  | orderCollected n => exact Envelope.event_orderCollected time n
  | sweepRequested => exact Envelope.event_sweepRequested time
  | statusUpdated n s => exact Envelope.event_statusUpdated s time n

variable {t}

theorem orderNumber_envelope {n : OrderNumber} (h : t.number? = some n) (hn : n.Fits) :
    (t.envelope time).orderNumber = .ok n := by
  cases t with
  | orderPlaced k =>
    cases h
    exact Envelope.orderNumber_orderPlaced time hn
  | itemRequested k i key =>
    cases h
    exact Envelope.orderNumber_itemRequested i key time hn
  | orderCollected k =>
    cases h
    exact Envelope.orderNumber_orderCollected time hn
  | statusUpdated k s =>
    cases h
    exact Envelope.orderNumber_statusUpdated s time hn
  | itemAdded i => cases h
  | sweepRequested => cases h

theorem lines_envelope {i : Item} (h : t.item? = some i) :
    (t.envelope time).decode Item.linesReader = .ok [i] := by
  cases t with
  | itemAdded j =>
    cases h
    exact Envelope.lines_itemAdded i time
  | itemRequested n j key =>
    cases h
    exact Envelope.lines_itemRequested i key time n
  | _ => cases h

theorem status_envelope {s : Status} (h : t.status? = some s) :
    (t.envelope time).decode Status.updateReader = .ok s := by
  cases t with
  | statusUpdated n s' =>
    cases h
    exact Envelope.status_statusUpdated s time n
  | _ => cases h

end Tiding

end Takeaway
