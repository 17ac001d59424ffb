import Takeaway.Message.Failure
import Takeaway.Order.Status

/-!
Counters of what happened, by series. A series that was counted by zero is there, with the count
it had.
-/

namespace Takeaway

/-- How the handling of a message by one handler ended. -/
inductive Series.Result where
  /-- The message could not be used. -/
  | rejected
  | success
  | failure
deriving DecidableEq

/-- What is counted. -/
inductive Series where
  | ordersPlaced
  | notificationsFailed
  | sendRetries
  | messagesLost
  | readErrors
  | stockCapped
  | takesRejected
  | kitchenRequests
  | statusUpdates (status : Status)
  | unroutedEvents
  | commands (command : String) (result : Series.Result)
  | commandTimes (command : String)
  | apiErrors (status : Nat)
deriving DecidableEq

namespace Series

/-- The name of a result. -/
def Result.name : Result → String
  | .rejected => "rejected"
  | .success => "success"
  | .failure => "failure"

/-- One character of a label as it is written. -/
def labelChar (c : Char) : List Char :=
  if c = '\\' then ['\\', '\\']
  else if c = '"' then ['\\', '"']
  else if c = '\n' then ['\\', 'n']
  else [c]

/-- The labels of a series as they are written. -/
def labels (ls : List (String × String)) : String :=
  let one := fun (l : String × String) =>
    l.1 ++ "=\"" ++ String.ofList (l.2.toList.flatMap labelChar) ++ "\""
  "\x7b" ++ ",".intercalate (ls.map one) ++ "\x7d"

/-- A series with its labels. -/
def text : Series → String
  | ordersPlaced => "orders_placed_total"
  | notificationsFailed => "notifications_failed_total"
  | sendRetries => "transport_send_retries_total"
  | messagesLost => "transport_messages_lost_total"
  | readErrors => "transport_read_errors_total"
  | stockCapped => "ledger_add_saturated_total"
  | takesRejected => "ledger_take_rejected_total"
  | kitchenRequests => "kitchen_requests_total"
  | statusUpdates s => "order_status_updates_total" ++ labels [("status", s.name)]
  | unroutedEvents => "router_unknown_event_total"
  | commands c r => "commands_executed_total" ++ labels [("command", c), ("outcome", r.name)]
  | commandTimes c => "command_duration_seconds_count" ++ labels [("command", c)]
  | apiErrors s => "api_errors_total" ++ labels [("status", String.ofList (Text.ofNat s))]

end Series

/-- The counts of all series that were ever counted. -/
structure Metrics where
  counts : List (Series × Nat) := []
deriving DecidableEq

namespace Metrics

/-- The count of a series. -/
def value (m : Metrics) (s : Series) : Nat := (m.counts.lookup s).getD 0

/-- The number of commands that were run. -/
def commandsRun (m : Metrics) : Nat :=
  m.counts.foldr (fun c n => match c.1 with | .commandTimes _ => c.2 + n | _ => n) 0

/-- A row of counts with one of them raised. -/
def raise (s : Series) (n : Nat) : List (Series × Nat) → List (Series × Nat)
  | [] => [(s, n)]
  | c :: r => if c.1 = s then (s, c.2 + n) :: r else c :: raise s n r

/-- Counts a series. -/
def count (m : Metrics) (s : Series) (n : Nat) : Metrics := ⟨raise s n m.counts⟩

theorem lookup_raise (s t : Series) (n : Nat) (l : List (Series × Nat)) :
    ((raise s n l).lookup t).getD 0 = (l.lookup t).getD 0 + if t = s then n else 0 := by
  induction l with
  | nil =>
    by_cases h : t = s
    · simp [raise, h]
    · have : (t == s) = false := by simpa using h
      simp [raise, List.lookup_cons, this, h]
  | cons c r ih =>
    obtain ⟨a, k⟩ := c
    by_cases h : a = s
    · subst h
      by_cases ht : t = a
      · simp [raise, ht]
      · have : (t == a) = false := by simpa using ht
        simp [raise, List.lookup_cons, this, ht]
    · by_cases ht : t = a
      · subst ht
        simp [raise, h]
      · have : (t == a) = false := by simpa using ht
        simp [raise, List.lookup_cons, h, this, ih]

theorem value_count (m : Metrics) (s t : Series) (n : Nat) :
    (m.count s n).value t = m.value t + if t = s then n else 0 := lookup_raise s t n m.counts

end Metrics

end Takeaway
