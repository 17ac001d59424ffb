import Takeaway.Flow
import Takeaway.Message.Broker
import Takeaway.Message.Retry

/-!
The state of the system: the clock, the order store, the stock, the broker, the notices under way
and the counts of what happened; and what each action does to it.
-/

namespace Takeaway

/-- A row of sleepers, each with the tick at which it goes on, with one more, behind those that go
on at the same tick. -/
def bedded {α : Type} (s : Nat × α) : List (Nat × α) → List (Nat × α)
  | [] => [s]
  | t :: r => if s.1 < t.1 then s :: t :: r else t :: bedded s r

/-- A notice that is under way, and how often it may still be tried again. -/
structure Notice where
  envelope : Envelope
  left : Nat
deriving DecidableEq

/-- The notices under way. -/
structure Notices where
  /-- How many may be under way at once; none counts as one. -/
  limit : Nat := 64
  policy : RetryPolicy := {}
  /-- The notices whose turn is next. -/
  ready : List Notice := []
  /-- The notices that wait before they are tried again, with the tick at which they go on, the
  earliest first. -/
  asleep : List (Nat × Notice) := []
deriving DecidableEq

namespace Notices

/-- The number of notices under way. -/
def underWay (n : Notices) : Nat := n.ready.length + n.asleep.length

/-- Whether one more notice may be under way. -/
def hasRoom (n : Notices) : Bool := decide (n.underWay < max n.limit 1)

/-- The most turns that the sleepers can take. -/
def turnsLeft (n : Notices) : Nat := n.asleep.foldr (fun s k => s.2.left + 1 + k) 0

end Notices

/-- The state of the system. -/
structure World where
  /-- The clock, in milliseconds. -/
  now : Nat := 0
  /-- The topic that messages are sent on. -/
  topic : String := "orders"
  store : ScriptedStore := {}
  stock : Stock := {}
  broker : Broker := {}
  notices : Notices := {}
  metrics : Metrics := {}
  /-- The number of request keys made so far. -/
  keys : Nat := 0
deriving DecidableEq

namespace World

/-- The time of day. -/
def time (w : World) : Timestamp := Timestamp.ofMillis w.now

/-- Counts a series. -/
def count (w : World) (s : Series) (n : Nat) : World := { w with metrics := w.metrics.count s n }

/-- The deadline of a command that begins now. No tick is too late for this clock. -/
def deadline (w : World) (timeout : Span) : Deadline := ⟨w.now + timeout.ticks, timeout⟩

/-- One attempt to send. -/
def send (w : World) (e : Envelope) : Except MessageFailure Unit × World :=
  let (r, b) := w.broker.send w.topic e
  (r, { w with broker := b })

/-- Takes units out of stock. -/
def take (w : World) (item : String) (q : Quantity) : Except Fault Unit × World :=
  match w.stock.take item q with
  | .ok stock => (.ok (), { w with stock := stock })
  | .error f => (.error f, w.count .takesRejected 1)

/-- Adds units to the stock. -/
def add (w : World) (item : String) (q : Quantity) : World :=
  let w := if w.stock.overflows item q then w.count .stockCapped 1 else w
  { w with stock := w.stock.add item q }

/-- The answer to a call that changes the store, which stays as it was if the call fails. -/
def stored {α : Type} (w : World) :
    Except Outage (α × ScriptedStore) → Except Outage α × World
  | .ok (a, s) => (.ok a, { w with store := s })
  | .error e => (.error e, w)

/-- What an action answers, and what it does. -/
def perform (w : World) : (a : Action) → a.Answer × World
  | .clock => (w.time, w)
  | .deadline timeout => (w.deadline timeout, w)
  | .lag call => (w.store.lag call, w)
  | .nextNumber => w.stored w.store.nextNumber
  | .fetch n => (w.store.get? n, w)
  | .search f => (w.store.find f, w)
  | .save o => w.stored ((w.store.upsert o w.time).map fun s => ((), s))
  | .onHand item => (w.stock.onHand item, w)
  | .take item q => w.take item q
  | .add item q => (w.stock.announces && decide (0 < q.units), w.add item q)
  | .inventory => (w.stock.counts, w)
  | .send e => w.send e
  | .note e =>
    let n : Notice := ⟨e, w.notices.policy.limit - 1⟩
    ((), { w with notices := { w.notices with ready := w.notices.ready ++ [n] } })
  | .freshKey => (RequestKey.ofSerial w.keys, { w with keys := w.keys + 1 })
  | .count s n => ((), w.count s n)
  | .metrics => (w.metrics, w)

end World

end Takeaway
