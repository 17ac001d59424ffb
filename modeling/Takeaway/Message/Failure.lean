import Takeaway.Json.Decode
import Takeaway.Order.Number

/-!
What can go wrong with messages: one that cannot be used as it is, and the ways in which sending
and receiving fail.
-/

namespace Takeaway

/-- Why a message could not be read, sent or received. -/
inductive MessageFailure where
  | missingHeader (name : String)
  | invalidOrder (cause : OrderNumber.Unreadable)
  | unknownEvent (tag : String)
  | payload (cause : Json.Misread)
  /-- A single attempt to send failed. -/
  | transport (reason : String)
  /-- Every attempt failed. -/
  | unavailable (attempts : Nat) (reason : String)
  /-- The reader was too slow; the messages are lost. -/
  | lagged (lost : Nat)
  /-- Nothing more will come. -/
  | closed
deriving DecidableEq

namespace MessageFailure

/-- The wording of a failure. -/
def message : MessageFailure → String
  | missingHeader name => "Missing header: " ++ name
  | invalidOrder cause => "Invalid order header: " ++ cause.message
  | unknownEvent tag => "Unknown event type: " ++ tag
  | payload _ => "Payload error"
  | transport reason => "Transport error: " ++ reason
  | unavailable attempts reason =>
    "Transport unavailable after " ++ String.ofList (Text.ofNat attempts) ++ " attempts: " ++ reason
  | lagged lost =>
    "Subscriber lagged, " ++ String.ofList (Text.ofNat lost) ++ " messages skipped"
  | closed => "Transport closed"

/-- Whether the same may succeed when it is tried again. -/
def isTransient : MessageFailure → Bool
  | transport _ => true
  | _ => false

/-- Whether the message itself is at fault. -/
def isMalformed : MessageFailure → Bool
  | missingHeader _ | invalidOrder _ | unknownEvent _ | payload _ => true
  | _ => false

end MessageFailure

end Takeaway
