import Takeaway.Double
import Takeaway.Message.Retry
import Takeaway.Text.Blank

/-!
Settings, read from named variables. Every setting depends on its own variable only: a variable
that is missing or cannot be read leaves the setting as it is without it.
-/

namespace Takeaway

/-- The settings of the engine. -/
structure EngineSettings where
  /-- The time that a command has for its calls. -/
  timeout : Span := Span.seconds 5
  retry : RetryPolicy := {}
  /-- Whether the kitchen is part of the engine. -/
  kitchen : Bool := true
  /-- What preparation times are multiplied with. -/
  timeScale : Double := Double.one
  /-- How many notices may be under way at once. -/
  noticeLimit : Nat := 64
  /-- How many messages wait for the engine at most. -/
  inbound : Nat := 256
deriving DecidableEq

/-- The settings of the whole service. -/
structure Settings where
  host : String := "0.0.0.0"
  port : Nat := 3000
  logLevel : String := "info"
  brokers : List String := ["localhost:9092"]
  topic : String := "orders"
  partitions : Int := 1
  replication : Int := 1
  sendAttempts : Nat := 5
  sendDelay : Span := Span.millis 200
  timeout : Span := Span.seconds 5
  kitchen : Bool := true
  timeScale : Double := Double.one
  noticeLimit : Nat := 64
deriving DecidableEq

namespace Settings

/-- Splits a text at every comma. -/
def splitCommas : List Char → List (List Char)
  | [] => [[]]
  | c :: r =>
    if c = ',' then [] :: splitCommas r
    else match splitCommas r with
      | [] => [[c]]
      | s :: ss => (c :: s) :: ss

/-- The names in a list with commas between, without the blanks around them; none of them is
empty. -/
def names (s : String) : List String :=
  (((splitCommas s.toList).map Text.trim).filter fun n => !n.isEmpty).map String.ofList

/-- Reads a switch. -/
def switch? (s : List Char) : Option Bool :=
  let word := String.ofList ((Text.trim s).map Char.toLower)
  if ["1", "true", "yes", "on"].contains word then some true
  else if ["0", "false", "no", "off"].contains word then some false
  else none

/-- Reads a number of the given size that is above zero. -/
def positive? (bits : Nat) (s : List Char) : Option Nat := (Text.natWithin? bits s).filter (0 < ·)

/-- The settings that the variables found by a look-up ask for. -/
def read (lookup : String → Option String) : Settings :=
  let own : Settings := {}
  let value := fun {α : Type} (name : String) (read : List Char → Option α) =>
    (lookup name).bind fun s => read (Text.trim s.toList)
  { host := (lookup "HOST").getD own.host
    port := (value "PORT" (Text.natWithin? 16)).getD own.port
    logLevel := (lookup "RUST_LOG").getD own.logLevel
    brokers := (((lookup "KAFKA_BROKERS").map names).filter fun ns => !ns.isEmpty).getD own.brokers
    topic := (lookup "KAFKA_TOPIC").getD own.topic
    partitions := (value "KAFKA_PARTITIONS" (Text.intWithin? 32)).getD own.partitions
    replication := (value "KAFKA_REPLICATION_FACTOR" (Text.intWithin? 16)).getD own.replication
    sendAttempts := (value "SEND_MAX_ATTEMPTS" (positive? 32)).getD own.sendAttempts
    sendDelay := ((value "SEND_RETRY_DELAY_MS" (Text.natWithin? 64)).map Span.millis).getD
      own.sendDelay
    timeout := ((value "COMMAND_TIMEOUT_MS" (positive? 64)).map Span.millis).getD own.timeout
    kitchen := (value "KITCHEN_ENABLED" switch?).getD own.kitchen
    timeScale := ((value "KITCHEN_TIME_SCALE" Double.read?).filter Double.isScale).getD own.timeScale
    noticeLimit := (value "NOTIFY_MAX_IN_FLIGHT" (positive? 32)).getD own.noticeLimit }

/-- The address that the service listens on. -/
def address (s : Settings) : String := s.host ++ ":" ++ String.ofList (Text.ofNat s.port)

/-- The brokers in one text. -/
def bootstrap (s : Settings) : String := ",".intercalate s.brokers

/-- The settings of the engine of a service. -/
def engine (s : Settings) : EngineSettings where
  timeout := s.timeout
  retry := .of s.sendAttempts s.sendDelay
  kitchen := s.kitchen
  timeScale := s.timeScale
  noticeLimit := s.noticeLimit

end Settings

end Takeaway
