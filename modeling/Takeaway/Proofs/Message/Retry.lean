import Takeaway.Proofs.Flow.Does
import Takeaway.Proofs.World.Clock
import Takeaway.Proofs.World.Steady

/-!
Trying again as a policy says. Main statement: whatever the attempts come to, they are made up to
the first that does not fail for the moment, but no more of them than the policy allows; between two
attempts the failure is counted and the delay goes by, and the last one decides the result.
-/

namespace Takeaway

variable {α : Type} {rank : World.Rank} {w w' : World} {l : List Deed}

/-! ### Outcomes of attempts -/

/-- An attempt that may succeed when it is made again. -/
def FailsForNow (r : Except MessageFailure α) : Prop :=
  ∃ f, r = .error f ∧ f.isTransient = true

/-- The attempt `j` is the first one that does not fail for the moment. -/
structure Decides (script : Nat → Except MessageFailure α) (j : Nat) : Prop where
  pos : 1 ≤ j
  before : ∀ i, 1 ≤ i → i < j → FailsForNow (script i)
  last : ¬ FailsForNow (script j)

/-- An attempt that takes no time and comes to what a script says; it leaves its number behind. -/
def scripted (script : Nat → Except MessageFailure α) (i : Nat) :
    StateT (List Nat) Flow (Except MessageFailure α) := do
  modify (· ++ [i])
  return script i

/-- A failure for good is reported as it is. -/
theorem mapError_exhausted {r : Except MessageFailure α} (h : ¬ FailsForNow r) (i : Nat) :
    r.mapError (·.exhausted i) = r := by
  cases r with
  | ok a => rfl
  | error f =>
    have hf : ¬ f.isTransient = true := fun hf => h ⟨f, rfl, hf⟩
    exact congrArg Except.error (if_neg hf)

/-- Up to a number of attempts all fail for the moment, unless one of them decides. -/
theorem failsForNow_of_undecided {script : Nat → Except MessageFailure α} {n : Nat}
    (h : ∀ j, Decides script j → n < j) (i : Nat) (hpos : 1 ≤ i) (hi : i ≤ n) :
    FailsForNow (script i) := by
  induction i using Nat.strongRecOn with
  | ind i ih =>
    by_contra hlast
    have hlt := h i ⟨hpos, fun m hm hmi => ih m hmi hm (by omega), hlast⟩
    omega

namespace RetryPolicy

variable {p : RetryPolicy}

/-! ### Between two attempts -/

/-- What is done between two attempts. -/
def again {m : Type → Type} [Monad m] [MonadLiftT Flow m] (p : RetryPolicy) : m Unit := do
  liftM (Flow.count .sendRetries)
  liftM (Flow.pause p.delay)

/-- Attempts at something, as many as the policy asks for. -/
def follow {m : Type → Type} [Monad m] [MonadLiftT Flow m] (p : RetryPolicy)
    (attempt : Nat → m (Except MessageFailure α)) : m (Except MessageFailure α) :=
  retry p.again attempt (p.limit - 1) 1

/-- Sending follows the policy. -/
theorem publish_eq_follow (p : RetryPolicy) (e : Envelope) :
    publish p e = p.follow fun _ => Flow.ask (.send e) := rfl

/-- Attempts by a script, with the numbers that they left behind. -/
def tried (p : RetryPolicy) (script : Nat → Except MessageFailure α) :
    Flow (Except MessageFailure α × List Nat) :=
  (p.follow (scripted script)).run []

/-- From the one world to the other a number of failures were followed by another attempt. -/
structure Retries (p : RetryPolicy) (k : Nat) (w : World) (l : List Deed) (w' : World) : Prop where
  deeds : l.map (·.action) = List.replicate k (.count .sendRetries 1)
  clock : w'.now = w.now + k * p.delay.ticks
  /-- Where no notice is under way, there is nothing else to it. -/
  alone : w.Alone → w'.Alone ∧ w.Untouched w' ∧ ∀ s, w'.metrics.value s =
    w.metrics.value s + if s = .sendRetries then k else 0

namespace Retries

variable {k : Nat}

theorem zero (p : RetryPolicy) (w : World) : p.Retries 0 w [] w :=
  ⟨rfl, by omega, fun h => ⟨h, World.Untouched.refl w, by simp⟩⟩

/-- One more failure before the others: it is counted, and the delay goes by. -/
theorem cons
    (h : p.Retries k ((w.count .sendRetries 1).await rank (.pause p.delay) none).2 l w') :
    p.Retries (k + 1) w (⟨w, .count .sendRetries 1, w.count .sendRetries 1⟩ :: l) w' := by
  obtain ⟨-, hclock⟩ := (w.count .sendRetries 1).await_pause rank p.delay
  refine ⟨?_, ?_, fun hw => ?_⟩
  · rw [List.map_cons, h.deeds]
    rfl
  · have hcount : (w.count .sendRetries 1).now = w.now := rfl
    rw [h.clock, hclock, hcount, Nat.succ_mul]
    omega
  · have halone := h.alone
    rw [(hw.count .sendRetries 1).await_pause rank p.delay] at halone
    obtain ⟨hw', hsame, hvalue⟩ := halone ((hw.count .sendRetries 1).reach _)
    refine ⟨hw', ⟨hsame.store, hsame.stock, hsame.broker, hsame.notices⟩, fun s => ?_⟩
    have hone : ((w.count .sendRetries 1).reach
        ((w.count .sendRetries 1).now + p.delay.ticks)).metrics.value s =
          w.metrics.value s + if s = .sendRetries then 1 else 0 := Metrics.value_count ..
    rw [hvalue, hone]
    split <;> omega

end Retries

/-! ### Attempts by a script -/

/-- An attempt that may not be the last one. -/
theorem run_retry_succ (p : RetryPolicy) (script : Nat → Except MessageFailure α) (left i : Nat)
    (seen : List Nat) :
    (retry p.again (scripted script) (left + 1) i).run seen =
      match script i with
      | .ok a => .done (.ok a, seen ++ [i])
      | .error f =>
        if f.isTransient then
          .act (.count .sendRetries 1) fun _ => .wait (.pause p.delay) none fun _ =>
            (retry p.again (scripted script) left (i + 1)).run (seen ++ [i])
        else .done (.error f, seen ++ [i]) := by
  simp only [retry, scripted]
  cases script i with
  | ok a => rfl
  | error f =>
    show StateT.run (if f.isTransient = true then _ else _) (seen ++ [i]) = _
    dsimp only
    split <;> rfl

/-- **Attempts by a script**, of which `k` fail for the moment, and the next one does not or is the
last. -/
theorem does_retry_scripted (p : RetryPolicy) (script : Nat → Except MessageFailure α)
    {left i k : Nat} (hk : k ≤ left) (hbefore : ∀ m < k, FailsForNow (script (i + m)))
    (hlast : k = left ∨ ¬ FailsForNow (script (i + k))) (seen : List Nat) :
    ((retry p.again (scripted script) left i).run seen).Does rank w fun l a w' =>
      a = ((script (i + k)).mapError (·.exhausted (i + k)), seen ++ List.range' i (k + 1)) ∧
        p.Retries k w l w' := by
  induction left generalizing i k w seen with
  | zero =>
    obtain rfl : k = 0 := Nat.le_zero.1 hk
    have hrun : (retry p.again (scripted script) 0 i).run seen =
        .done ((script i).mapError (·.exhausted i), seen ++ [i]) := by
      simp only [retry, scripted]
      cases script i <;> rfl
    rw [hrun]
    exact Flow.does_done ⟨rfl, .zero p w⟩
  | succ left ih =>
    rw [run_retry_succ]
    cases k with
    | zero =>
      have hfirst : ¬ FailsForNow (script i) := hlast.resolve_left (by omega)
      simp only [Nat.add_zero, mapError_exhausted hfirst]
      cases hs : script i with
      | ok a => exact Flow.does_done ⟨rfl, .zero p w⟩
      | error f =>
        have hf : ¬ f.isTransient = true := fun hf => hfirst ⟨f, hs, hf⟩
        dsimp only
        rw [if_neg hf]
        exact Flow.does_done ⟨rfl, .zero p w⟩
    | succ k =>
      obtain ⟨f, hs, hf⟩ := hbefore 0 (Nat.succ_pos k)
      rw [Nat.add_zero] at hs
      simp only [hs, if_pos hf]
      have hshift : ∀ m, i + 1 + m = i + (m + 1) := fun m => by omega
      refine Flow.does_act (Flow.does_wait ?_)
      refine (ih (k := k) (by omega) (fun m hm => hshift m ▸ hbefore (m + 1) (by omega))
        (hlast.imp (by omega) fun h => by rwa [hshift]) (seen ++ [i])).imp ?_
      rintro l a w' ⟨ha, hl⟩
      refine ⟨ha.trans ?_, hl.cons⟩
      rw [hshift, List.append_assoc]
      rfl

/-! ### Following a policy -/

/-- The policy was followed for `k` attempts at something, the last of which decides the result. -/
structure Followed (p : RetryPolicy) (delay k : Nat) (rank : World.Rank)
    (script : Nat → Except MessageFailure α) (w : World) (r : Except MessageFailure α) : Prop where
  result : ((p.tried script).run rank w).1.1 = r
  /-- The attempts were made one after the other, each once. -/
  calls : ((p.tried script).run rank w).1.2 = List.range' 1 k
  clock : ((p.tried script).run rank w).2.now = w.now + (k - 1) * delay
  /-- Nothing is done but to count the failures that were followed by another attempt. -/
  deeds : ((p.tried script).trail rank w).map (·.action) =
    List.replicate (k - 1) (.count .sendRetries 1)
  /-- Where no notice is under way, nothing else is counted or changed meanwhile. -/
  alone : w.Alone → w.Untouched ((p.tried script).run rank w).2 ∧
    ∀ s, ((p.tried script).run rank w).2.metrics.value s =
      w.metrics.value s + if s = .sendRetries then k - 1 else 0

theorem followed_of_attempts (attempts delay : Nat) (script : Nat → Except MessageFailure α)
    (rank : World.Rank) (w : World) {k : Nat} (hk : k < max attempts 1)
    (hbefore : ∀ i, 1 ≤ i → i ≤ k → FailsForNow (script i))
    (hlast : k + 1 = max attempts 1 ∨ ¬ FailsForNow (script (k + 1))) :
    Followed ⟨attempts, Span.millis delay⟩ delay (k + 1) rank script w
      ((script (k + 1)).mapError (·.exhausted (k + 1))) := by
  have hrun : (tried ⟨attempts, Span.millis delay⟩ script).Does rank w fun l a w' =>
      a = ((script (1 + k)).mapError (·.exhausted (1 + k)), List.range' 1 (k + 1)) ∧
        Retries ⟨attempts, Span.millis delay⟩ k w l w' :=
    does_retry_scripted _ script (show k ≤ max attempts 1 - 1 by omega)
      (fun m hm => hbefore (1 + m) (by omega) (by omega))
      (hlast.imp (by omega) fun h => by rwa [Nat.add_comm 1 k]) []
  obtain ⟨hresult, hretries⟩ := hrun
  rw [Nat.add_comm 1 k] at hresult
  refine ⟨congrArg Prod.fst hresult, congrArg Prod.snd hresult, ?_, hretries.deeds, fun hw => ?_⟩
  · have hclock := hretries.clock
    dsimp only at hclock
    rw [Span.ticks_millis] at hclock
    exact hclock
  · exact (hretries.alone hw).2

/-- **Trying again follows its policy.** If an attempt that the policy allows is the first that does
not fail for the moment, it decides; else the policy is exhausted by the last one. -/
theorem policy_followed (attempts delay : Nat) (script : Nat → Except MessageFailure α)
    (rank : World.Rank) (w : World) :
    (∀ j, Decides script j → j ≤ max attempts 1 →
      Followed ⟨attempts, Span.millis delay⟩ delay j rank script w (script j)) ∧
    ((∀ j, Decides script j → max attempts 1 < j) →
      ∃ f, script (max attempts 1) = .error f ∧
        Followed ⟨attempts, Span.millis delay⟩ delay (max attempts 1) rank script w
          (.error (.unavailable (max attempts 1) f.message))) := by
  constructor
  · intro j hj hle
    have hpos := hj.pos
    obtain ⟨k, rfl⟩ : ∃ k, j = k + 1 := ⟨j - 1, by omega⟩
    have hfollowed := followed_of_attempts attempts delay script rank w (k := k) (by omega)
      (fun i hi hik => hj.before i hi (by omega)) (.inr hj.last)
    rwa [mapError_exhausted hj.last] at hfollowed
  · intro hnone
    have hall := failsForNow_of_undecided hnone
    obtain ⟨k, hk⟩ : ∃ k, max attempts 1 = k + 1 := ⟨max attempts 1 - 1, by omega⟩
    obtain ⟨f, hs, hf⟩ := hall (max attempts 1) (by omega) le_rfl
    have hfollowed := followed_of_attempts attempts delay script rank w (k := k) (by omega)
      (fun i hi hik => hall i hi (by omega)) (.inl hk.symm)
    rw [← hk, hs] at hfollowed
    refine ⟨f, hs, ?_⟩
    have hreason : f.exhausted (max attempts 1) = .unavailable (max attempts 1) f.message :=
      if_pos hf
    rwa [← hreason]

/-- An attempt that fails for good after two that fail for the moment. -/
def closing (i : Nat) : Except MessageFailure Unit :=
  if i < 3 then .error (.transport "busy") else .error .closed

/-- A third attempt, where there is one, decides; where there is none, the second was the last. -/
theorem policy_followed_closing :
    Followed ⟨3, Span.millis 200⟩ 200 3 .first closing {} (.error .closed) ∧
      Followed ⟨2, Span.millis 200⟩ 200 2 .first closing {}
        (.error (.unavailable 2 "Transport error: busy")) := by
  have hlast : ∀ j, ¬ FailsForNow (closing j) → 2 < j := by
    intro j hj
    by_contra hle
    refine hj ⟨.transport "busy", ?_, rfl⟩
    exact if_pos (by omega)
  have hthird : Decides closing 3 := by
    refine ⟨by decide, fun i _ hi => ⟨_, if_pos hi, rfl⟩, ?_⟩
    rintro ⟨f, hf, htransient⟩
    cases hf
    cases htransient
  refine ⟨(policy_followed 3 200 closing .first {}).1 3 hthird le_rfl, ?_⟩
  obtain ⟨f, hf, hfollowed⟩ :=
    (policy_followed 2 200 closing .first {}).2 fun j hj => hlast j hj.last
  cases hf
  exact hfollowed

end RetryPolicy

end Takeaway
