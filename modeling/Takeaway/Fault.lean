import Takeaway.Message.Failure
import Takeaway.Order.Refusal
import Takeaway.Time.Span

/-!
What can go wrong while orders are covered, and whose fault it is.
-/

namespace Takeaway

/-- The order store did not answer. -/
structure Outage where
  reason : String
deriving DecidableEq

/-- The wording of an outage. -/
def Outage.message (o : Outage) : String := "Order store unavailable: " ++ o.reason

/-- Why something that concerns the stored orders failed. -/
inductive OrderFault where
  | refused (cause : Refusal)
  | outage (cause : Outage)
deriving DecidableEq

namespace OrderFault

/-- The wording of a fault. -/
def message : OrderFault → String
  | refused cause => "Order error: " ++ cause.message
  | outage cause => "Repository error: " ++ cause.message

/-- Whether the fault lies with what was asked. -/
def isValidation : OrderFault → Bool
  | refused _ => true
  | outage _ => false

end OrderFault

/-- Why the handling of a message or a request failed. -/
inductive Fault where
  /-- The message lacks a header or its payload cannot be read. -/
  | malformed (text : String)
  | unknownItem (item : String)
  /-- More units were to be taken than there are. -/
  | insufficient (item : String) (requested available : Quantity)
  /-- The store or the transport does not answer. -/
  | downstream (text : String)
  /-- A call was not over by the deadline. -/
  | late (timeout : Span)
  | refused (cause : Refusal)
  | noHandler (tag : String)
  | crashed (text : String)
deriving DecidableEq

/-- Whose fault a fault is. -/
inductive Fault.Category where
  /-- Of the message or request. -/
  | validation
  /-- Of something outside that may recover. -/
  | infrastructure
  /-- Of the system itself. -/
  | internal
deriving DecidableEq

namespace Fault

/-- The name of a category. -/
def Category.name : Category → String
  | .validation => "validation"
  | .infrastructure => "infrastructure"
  | .internal => "internal"

/-- The wording of a fault. -/
def message : Fault → String
  | malformed text => "Malformed message: " ++ text
  | unknownItem item => "Unknown item: " ++ item
  | insufficient item requested available =>
    "Insufficient inventory for " ++ item ++ ": requested " ++
      String.ofList (Text.ofNat requested.units) ++ ", available " ++
      String.ofList (Text.ofNat available.units)
  | downstream text => "Downstream unavailable: " ++ text
  | late timeout => "Deadline of " ++ timeout.text ++ " exceeded"
  | refused cause => "Order error: " ++ cause.message
  | noHandler tag => "No handler for event type: " ++ tag
  | crashed text => "Command panicked: " ++ text

/-- Whose fault a fault is. -/
def category : Fault → Category
  | malformed _ | unknownItem _ | refused _ | noHandler _ => .validation
  | downstream _ | late _ => .infrastructure
  | insufficient _ _ _ | crashed _ => .internal

/-! ### Faults of the parts -/

/-- A refusal as a fault. -/
def ofRefusal : Refusal → Fault
  | .unknownItem item => unknownItem item
  | cause => refused cause

/-- An outage of the store as a fault. -/
def ofOutage (o : Outage) : Fault := downstream o.message

/-- A fault with stored orders as a fault. -/
def ofOrderFault : OrderFault → Fault
  | .refused cause => ofRefusal cause
  | .outage cause => ofOutage cause

/-- A failure with messages as a fault. -/
def ofMessage (f : MessageFailure) : Fault :=
  if f.isMalformed then malformed f.message else downstream f.message

end Fault

end Takeaway
