import Takeaway.Message.Envelope

/-!
A broker that keeps the last messages for its readers. A reader that falls behind the messages
kept is told once how many it lost, and goes on with the oldest one kept.
-/

namespace Takeaway

/-- A message with the topic it was sent on. -/
structure Delivery where
  topic : String
  envelope : Envelope
deriving DecidableEq

/-- A broker. -/
structure Broker where
  /-- How many messages are kept for readers. -/
  capacity : Nat := 1024
  /-- The messages kept, the oldest first. -/
  kept : List Delivery := []
  /-- The number of messages sent so far. -/
  total : Nat := 0
  /-- Whether a record of all messages is made. -/
  records : Bool := true
  /-- The record of messages. -/
  history : List Delivery := []
  /-- How many further attempts to send are made to fail. -/
  failing : Nat := 0
  isUp : Bool := true
  isClosed : Bool := false
deriving DecidableEq

namespace Broker

/-- The smallest power of two that is not below a number. -/
def roundedUp (n : Nat) : Nat := if n ≤ 1 then 1 else Nat.pow 2 ((n - 1).log2 + 1)

/-- A broker with room for that many messages, or a few more. -/
def withCapacity (n : Nat) : Broker := { capacity := roundedUp n }

/-- A broker without a record of the messages. -/
def streaming : Broker := { records := false }

/-! ### Sending -/

/-- What an attempt to send does before any message is sent: a broker that is down fails, and so
does one that was told to, once for each attempt. -/
def attempt (b : Broker) : Except MessageFailure Unit × Broker :=
  if !b.isUp then (.error (.transport "broker unavailable"), b)
  else match b.failing with
    | n + 1 => (.error (.transport "injected send failure"), { b with failing := n })
    | 0 => (.ok (), b)

/-- A broker with one more message. -/
def deliver (b : Broker) (d : Delivery) : Broker :=
  { b with
    kept := (b.kept ++ [d]).drop (b.kept.length + 1 - b.capacity)
    total := b.total + 1
    history := if b.records then b.history ++ [d] else b.history }

/-- One attempt to send. -/
def send (b : Broker) (topic : String) (e : Envelope) : Except MessageFailure Unit × Broker :=
  match b.attempt with
  | (.ok (), b) => (.ok (), b.deliver ⟨topic, e⟩)
  | (.error f, b) => (.error f, b)

/-- The recorded messages with the given tag. -/
def recordedWith (b : Broker) (tag : String) : List Envelope :=
  (b.history.map (·.envelope)).filter fun e => e.header? Envelope.eventHeader == some tag

/-- The broker without its record so far. -/
def cleared (b : Broker) : Broker := { b with history := [] }

/-! ### Reading -/

/-- A reader, by the number of messages that it has behind it. -/
structure Reader where
  position : Nat
deriving DecidableEq

/-- What a reader gets. -/
inductive Read where
  | message (d : Delivery)
  | failed (f : MessageFailure)
  /-- There is nothing yet. -/
  | nothing
deriving DecidableEq

/-- A reader of what is sent from now on. -/
def subscribe (b : Broker) : Reader := ⟨b.total⟩

/-- The number of messages that are no longer kept. -/
def gone (b : Broker) : Nat := b.total - b.kept.length

/-- The next message for a reader. -/
def read (b : Broker) (r : Reader) : Read × Reader :=
  if r.position < b.gone then (.failed (.lagged (b.gone - r.position)), ⟨b.gone⟩)
  else match b.kept[r.position - b.gone]? with
    | some d => (.message d, ⟨r.position + 1⟩)
    | none => (if b.isClosed then .failed .closed else .nothing, r)

end Broker

end Takeaway
