import Takeaway.Message.Subscription

/-!
The intake of a service: a subscription with an inbox of limited size. A message that was read and
for which the inbox has no room is held until there is room, and nothing is read meanwhile;
messages that the broker could not keep until then are lost, and are counted.
-/

namespace Takeaway

/-- The intake of a service. -/
structure Intake where
  topic : String
  /-- How many messages the inbox holds; none counts as one. -/
  size : Nat
  reader : Broker.Reader
  /-- The messages that were read and not handled yet, the first one first. -/
  inbox : List Envelope := []
  /-- The message that was read and for which there has been no room yet. -/
  held : Option Envelope := none
deriving DecidableEq

namespace Intake

/-- An intake of what is sent from now on. -/
def start (b : Broker) (topic : String) (size : Nat) : Intake :=
  { topic := topic, size := size, reader := b.subscribe }

/-- Whether the inbox has no room. -/
def isFull (i : Intake) : Bool := decide (max i.size 1 ≤ i.inbox.length)

/-- Whether reading can go on: there is room for the message that is held, or none is held and
there is something to read. -/
def canRead (i : Intake) (b : Broker) : Bool :=
  match i.held with
  | some _ => !i.isFull
  | none => decide (i.reader.position < b.total)

/-- Reads once. The counts are those of what was lost and of what went wrong. -/
def readOnce (b : Broker) (i : Intake) (m : Metrics) : Intake × Metrics :=
  let (got, reader) := b.read i.reader
  let i := { i with reader := reader }
  match Subscription.react i.topic got with
  | .forward e => ({ i with held := some e }, m)
  | .lose n => (i, m.count .messagesLost n)
  | .rest => (i, m.count .readErrors 1)
  | .skip | .stop | .idle => (i, m)

/-- Goes on by one step: what is held is put into the inbox if there is room, and if nothing is
held, the next message is read. -/
def step (b : Broker) (i : Intake) (m : Metrics) : Intake × Metrics :=
  match i.held with
  | some e => if i.isFull then (i, m) else ({ i with inbox := i.inbox ++ [e], held := none }, m)
  | none => readOnce b i m

/-- Goes on for as long as reading can, so many steps at most. -/
def read (b : Broker) : (steps : Nat) → Intake → Metrics → Intake × Metrics
  | 0, i, m => (i, m)
  | steps + 1, i, m =>
    if i.canRead b then
      let (i, m) := step b i m
      read b steps i m
    else (i, m)

/-- Reads until reading cannot go on. It takes one step to put away what is held, one to learn of
the messages that are not kept, and two for each message that is kept. -/
def readAll (b : Broker) (i : Intake) (m : Metrics) : Intake × Metrics :=
  read b (2 * (b.kept.length + 1)) i m

end Intake

end Takeaway
