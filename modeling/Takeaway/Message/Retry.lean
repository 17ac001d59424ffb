import Takeaway.Message.Failure
import Takeaway.Time.Span

/-!
Trying again: what fails for the moment is tried a limited number of times with a pause between,
what fails for good is not. Main statement: a policy tries at least once.
-/

namespace Takeaway

/-- How often something is tried, and the pause between two attempts. -/
structure RetryPolicy where
  attempts : Nat := 5
  delay : Span := Span.millis 200
deriving DecidableEq

namespace RetryPolicy

/-- The policy with at least one attempt. -/
def of (attempts : Nat) (delay : Span) : RetryPolicy := ⟨max attempts 1, delay⟩

/-- The number of attempts that are made if all fail. -/
def limit (p : RetryPolicy) : Nat := max p.attempts 1

theorem limit_pos (p : RetryPolicy) : 0 < p.limit := by unfold limit; omega

end RetryPolicy

/-- The failure that is reported of the last attempt, the `i`-th one. -/
def MessageFailure.exhausted (i : Nat) (f : MessageFailure) : MessageFailure :=
  if f.isTransient then .unavailable i f.message else f

/-- The attempt `i`, and after a pause the next ones, `left` in number at most, as long as they
fail for the moment. -/
def retry {m : Type → Type} [Monad m] {α : Type} (pause : m Unit)
    (attempt : Nat → m (Except MessageFailure α)) :
    (left i : Nat) → m (Except MessageFailure α)
  | 0, i => do
    match ← attempt i with
    | .ok a => return .ok a
    | .error f => return .error (f.exhausted i)
  | left + 1, i => do
    match ← attempt i with
    | .ok a => return .ok a
    | .error f =>
      if f.isTransient then
        pause
        retry pause attempt left (i + 1)
      else return .error f

end Takeaway
