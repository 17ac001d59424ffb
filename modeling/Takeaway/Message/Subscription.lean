import Takeaway.Message.Broker
import Takeaway.Metrics

/-!
Subscriptions: what is made of each thing that a reader gets. Messages of the topic are forwarded,
others are passed over; messages that were lost are counted and reading goes on at once, while
after any other failure it rests for a moment.
-/

namespace Takeaway.Subscription

/-- What is done about something that was read. -/
inductive Reaction where
  | forward (e : Envelope)
  /-- The message is of another topic. -/
  | skip
  /-- Nothing more will come. -/
  | stop
  /-- That many messages were lost. -/
  | lose (n : Nat)
  /-- Reading failed; it goes on after a rest. -/
  | rest
  /-- There is nothing to read yet. -/
  | idle
deriving DecidableEq

/-- How long a rest is, in milliseconds. -/
def restMillis : Nat := 50

/-- What is done about something that was read. -/
def react (topic : String) : Broker.Read → Reaction
  | .message d => if d.topic = topic then .forward d.envelope else .skip
  | .failed .closed => .stop
  | .failed (.lagged n) => .lose n
  | .failed _ => .rest
  | .nothing => .idle

/-- How far a subscription has come. -/
structure Progress where
  /-- The messages that were forwarded, with the tick at which they were. -/
  received : List (Envelope × Nat) := []
  now : Nat := 0
  metrics : Metrics := {}
deriving DecidableEq

/-- Reads from a row until it ends, somebody says that nothing more will come, or there is a
message to forward and nobody listens. -/
def follow (topic : String) (listening : Bool) (p : Progress) : List Broker.Read → Progress
  | [] => p
  | r :: rs =>
    match react topic r with
    | .forward e =>
      if listening then
        follow topic listening { p with received := p.received ++ [(e, p.now)] } rs
      else p
    | .skip | .idle => follow topic listening p rs
    | .stop => p
    | .lose n => follow topic listening { p with metrics := p.metrics.count .messagesLost n } rs
    | .rest =>
      follow topic listening
        { p with now := p.now + restMillis, metrics := p.metrics.count .readErrors 1 } rs

end Takeaway.Subscription
