import Takeaway.Flow
import Takeaway.Message.Payload
import Takeaway.Message.Retry

/-!
The work that everything else is made of: calls of the store, sending with retries, handing over
notices, and calls that have to be over by a deadline.
-/

namespace Takeaway

/-- Work that may fail. -/
abbrev Work (α : Type) := ExceptT Fault Flow α

/-- Sends a message, and tries again what fails for the moment. -/
def publish (p : RetryPolicy) (e : Envelope) : Flow (Except MessageFailure Unit) :=
  retry (do Flow.count .sendRetries; Flow.pause p.delay) (fun _ => Flow.ask (.send e))
    (p.limit - 1) 1

/-- Hands over a notice as soon as there is room for it. -/
def notify (e : Envelope) : Flow Unit :=
  .wait .slot none fun _ => Flow.ask (.note e)

/-- Adds units to the stock and announces them. -/
def addUnits (item : String) (q : Quantity) : Flow Unit := do
  if ← Flow.ask (.add item q) then
    notify (.itemAdded ⟨item, q⟩ (← Flow.ask .clock))

/-! ### Calls of the store -/

/-- Waits as long as a call of the store has to. -/
def lagOf (c : Store.Call) : Flow Unit := do
  Flow.pause (← Flow.ask (.lag c))

/-- The next order number. -/
def nextNumber : Flow (Except Outage OrderNumber) := do lagOf .next; Flow.ask .nextNumber

/-- The order with the given number. -/
def fetchOrder (n : OrderNumber) : Flow (Except Outage (Option Order)) := do
  lagOf .get
  Flow.ask (.fetch n)

/-- The orders that pass a filter. -/
def searchOrders (f : OrderFilter) : Flow (Except Outage (List Order)) := do
  lagOf .find
  Flow.ask (.search f)

/-- Writes an order. -/
def saveOrder (o : Order) : Flow (Except Outage Unit) := do
  lagOf .upsert
  Flow.ask (.save o)

namespace Work

variable {α : Type}

/-- A call of the store as work. -/
def ofStore (x : Flow (Except Outage α)) : Work α :=
  ExceptT.mk do return (← x).mapError Fault.ofOutage

/-- A refusal as failed work. -/
def ofRefusal (x : Except Refusal α) : Work α := ExceptT.mk (.done (x.mapError Fault.ofRefusal))

/-- Sending as work. -/
def publish (p : RetryPolicy) (e : Envelope) : Work Unit :=
  ExceptT.mk do return (← Takeaway.publish p e).mapError Fault.ofMessage

/-- A call that fails when it is not over by a deadline. -/
def within (d : Deadline) (call : Work α) : Work α := ExceptT.mk do
  match ← Flow.before d.tick call.run with
  | some r => return r
  | none => return .error (.late d.timeout)

end Work

end Takeaway
