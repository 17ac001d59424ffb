import Takeaway.Proofs.Message.Retry

/-!
The task of a notice: it publishes its message as the policy says, and counts a failure that is for
good. Main statement: whatever the attempts come to, it ends after a limited number of steps, and
the last thing that it does is to send the message or to count its failure, the one or the other.
-/

namespace Takeaway

/-- What a task does when the attempts at its message are over. -/
def reported : Except MessageFailure Unit → Flow Unit
  | .ok () => .done ()
  | .error _ => Flow.count .notificationsFailed

/-- The task of a notice. -/
def noticeTask (p : RetryPolicy) (e : Envelope) : Flow Unit := (publish p e).bind reported

namespace RetryPolicy

variable {p : RetryPolicy} {e : Envelope}

/-- The task of a notice before its attempt `i`, with `left` more to follow at most. -/
def taskFrom (p : RetryPolicy) (e : Envelope) (left i : Nat) : Flow Unit :=
  (retry p.again (fun _ => Flow.ask (.send e)) left i).bind reported

/-- A task begins with the first attempt. -/
theorem noticeTask_eq (p : RetryPolicy) (e : Envelope) :
    noticeTask p e = p.taskFrom e (p.limit - 1) 1 := rfl

/-- What a task does after an attempt that is the last one. -/
theorem taskFrom_zero (p : RetryPolicy) (e : Envelope) (i : Nat) :
    p.taskFrom e 0 i = .act (.send e) fun r =>
      match r with
      | .ok _ => .done ()
      | .error _ => Flow.count .notificationsFailed := by
  refine congrArg (Flow.act (.send e)) (funext fun r => ?_)
  cases r <;> rfl

/-- What a task does after an attempt that may not be the last one. -/
theorem taskFrom_succ (p : RetryPolicy) (e : Envelope) (left i : Nat) :
    p.taskFrom e (left + 1) i = .act (.send e) fun r =>
      match r with
      | .ok _ => .done ()
      | .error f =>
        if f.isTransient then
          .act (.count .sendRetries 1) fun _ => .wait (.pause p.delay) none fun _ =>
            p.taskFrom e left (i + 1)
        else Flow.count .notificationsFailed := by
  refine congrArg (Flow.act (.send e)) (funext fun r => ?_)
  cases r with
  | ok a => rfl
  | error f =>
    dsimp only [Flow.bind]
    split <;> rfl

end RetryPolicy

/-! ### What is still owed -/

/-- Whether a flow is at its end. -/
def Flow.isDone {α : Type} : Flow α → Bool
  | done _ => true
  | _ => false

/-- A flow that still owes a message: it goes on until the message is sent or its failure counted,
and then it is at its end; that takes `n` steps at most. -/
inductive Flow.Owes (e : Envelope) : Nat → Flow Unit → Prop where
  | send {n : Nat} {next : Except MessageFailure Unit → Flow Unit}
      (hsent : next (.ok ()) = .done ()) (hfailed : ∀ f, (next (.error f)).Owes e n) :
      Flow.Owes e (n + 1) (.act (.send e) next)
  | again {n : Nat} {next : Unit → Flow Unit} (h : (next ()).Owes e n) :
      Flow.Owes e (n + 1) (.act (.count .sendRetries 1) next)
  | pause {n : Nat} {s : Span} {next : Bool → Flow Unit} (h : (next true).Owes e n) :
      Flow.Owes e (n + 1) (.wait (.pause s) none next)
  | failed {n : Nat} {next : Unit → Flow Unit} (h : next () = .done ()) :
      Flow.Owes e (n + 1) (.act (.count .notificationsFailed 1) next)

namespace Flow.Owes

variable {e : Envelope} {x : Flow Unit} {n k : Nat}

theorem mono (h : x.Owes e n) (hk : n ≤ k) : x.Owes e k := by
  induction h generalizing k with
  | send hsent _ ih =>
    obtain ⟨k, rfl⟩ : ∃ j, k = j + 1 := ⟨k - 1, by omega⟩
    exact .send hsent fun f => ih f (by omega)
  | again _ ih =>
    obtain ⟨k, rfl⟩ : ∃ j, k = j + 1 := ⟨k - 1, by omega⟩
    exact .again (ih (by omega))
  | pause _ ih =>
    obtain ⟨k, rfl⟩ : ∃ j, k = j + 1 := ⟨k - 1, by omega⟩
    exact .pause (ih (by omega))
  | failed h =>
    obtain ⟨k, rfl⟩ : ∃ j, k = j + 1 := ⟨k - 1, by omega⟩
    exact .failed h

theorem isDone (h : x.Owes e n) : x.isDone = false := by cases h <;> rfl

theorem count_failed : (Flow.count .notificationsFailed).Owes e 1 := .failed rfl

end Flow.Owes

namespace RetryPolicy

/-- The most steps that a task takes with so many attempts after the next one. -/
def taskSteps (left : Nat) : Nat := 3 * left + 2

/-- **A task owes its message**, in front of every attempt. -/
theorem owes_taskFrom (p : RetryPolicy) (e : Envelope) (left i : Nat) :
    (p.taskFrom e left i).Owes e (taskSteps left) := by
  induction left generalizing i with
  | zero =>
    rw [taskFrom_zero]
    exact .send rfl fun f => .count_failed
  | succ left ih =>
    rw [taskFrom_succ]
    refine .send rfl fun f => ?_
    dsimp only
    split
    · exact .again (.pause (ih (i + 1)))
    · exact Flow.Owes.count_failed.mono (by omega)

theorem owes_noticeTask (p : RetryPolicy) (e : Envelope) :
    (noticeTask p e).Owes e (taskSteps (p.limit - 1)) := by
  rw [noticeTask_eq]
  exact p.owes_taskFrom e _ 1

end RetryPolicy

end Takeaway
