import Mathlib.Tactic.SplitIfs
import Takeaway.Command.Basic
import Takeaway.Kitchen

/-!
Flows that come to an end. Main statement: calls of the store, sending with retries and handing over notices
wait for nothing that never comes, and nor do calls that have to be over by a deadline.
-/

namespace Takeaway

/-- Whether a wait is never over. -/
def Wait.isEndless : Wait → (limit : Option Nat) → Bool
  | .forever, none => true
  | _, _ => false

theorem Wait.outcome_eq_never {now : Nat} {wt : Wait} {limit : Option Nat} :
    wt.outcome now limit = .never ↔ wt.isEndless limit = true := by
  cases wt with
  | slot => simp [outcome, isEndless]
  | pause s => cases limit <;> simp only [outcome, isEndless] <;> split_ifs <;> simp
  | forever =>
    cases limit with
    | none => simp [outcome, isEndless]
    | some limit =>
      simp only [outcome, isEndless]
      split_ifs <;> simp

/-! ### Flows -/

namespace Flow

variable {α β : Type}

/-- A flow that waits for nothing that never comes, whatever it is answered. -/
def Ceases : Flow α → Prop
  | done _ => True
  | act _ next => ∀ r, (next r).Ceases
  | wait wt limit next => wt.isEndless limit = false ∧ ∀ b, (next b).Ceases

theorem ceases_ask (a : Action) : (ask a).Ceases := fun _ => trivial

theorem ceases_count (s : Series) : (count s).Ceases := ceases_ask _

theorem ceases_pause (s : Span) : (pause s).Ceases := ⟨rfl, fun _ => trivial⟩

theorem Ceases.bind {x : Flow α} {f : α → Flow β} (hx : x.Ceases) (hf : ∀ a, (f a).Ceases) :
    (x.bind f).Ceases := by
  induction x with
  | done a => exact hf a
  | act a next ih => exact fun r => ih r (hx r)
  | wait wt limit next ih => exact ⟨hx.1, fun b => ih b (hx.2 b)⟩

/-- **A flow that is given up at some tick** does not wait any longer. -/
theorem Ceases.before {x : Flow α} (hx : x.Ceases) (tick : Nat) : (x.before tick).Ceases := by
  have hlimited : ∀ (wt : Wait) (limit : Nat), wt.isEndless (some limit) = false :=
    fun wt limit => by cases wt <;> rfl
  induction x with
  | done a => trivial
  | act a next ih => exact fun r => ih r (hx r)
  | wait wt limit next ih =>
    cases limit with
    | none =>
      refine ⟨hlimited .., fun b => ?_⟩
      cases b
      · trivial
      · exact ih true (hx.2 true)
    | some limit =>
      refine ⟨hlimited .., fun b => ?_⟩
      cases b
      · by_cases hl : limit ≤ tick
        · simpa only [hl, Bool.false_eq_true, if_false, if_true] using ih false (hx.2 false)
        · simp only [hl, Bool.false_eq_true, if_false, Ceases]
      · exact ih true (hx.2 true)

end Flow

theorem ceases_notify (e : Envelope) : (notify e).Ceases := ⟨rfl, fun _ => Flow.ceases_ask _⟩

theorem ceases_addUnits (item : String) (q : Quantity) : (addUnits item q).Ceases := by
  refine Flow.Ceases.bind (Flow.ceases_ask _) fun announced => ?_
  cases announced
  · trivial
  · exact Flow.Ceases.bind (Flow.ceases_ask _) fun _ => ceases_notify _

theorem ceases_publish (p : RetryPolicy) (e : Envelope) : (publish p e).Ceases := by
  unfold publish
  generalize p.limit - 1 = left
  generalize 1 = i
  induction left generalizing i with
  | zero =>
    refine Flow.Ceases.bind (Flow.ceases_ask _) fun r => ?_
    cases r <;> trivial
  | succ left ih =>
    refine Flow.Ceases.bind (Flow.ceases_ask _) fun r => ?_
    cases r with
    | ok a => trivial
    | error f =>
      dsimp only
      split
      · exact Flow.Ceases.bind
          (Flow.Ceases.bind (Flow.ceases_count _) fun _ => Flow.ceases_pause _) fun _ => ih _
      · trivial

theorem ceases_lagOf (c : Store.Call) : (lagOf c).Ceases :=
  Flow.Ceases.bind (Flow.ceases_ask _) fun _ => Flow.ceases_pause _

theorem ceases_fetchOrder (n : OrderNumber) : (fetchOrder n).Ceases :=
  Flow.Ceases.bind (ceases_lagOf _) fun _ => Flow.ceases_ask _

theorem ceases_searchOrders (f : OrderFilter) : (searchOrders f).Ceases :=
  Flow.Ceases.bind (ceases_lagOf _) fun _ => Flow.ceases_ask _

theorem ceases_saveOrder (o : Order) : (saveOrder o).Ceases :=
  Flow.Ceases.bind (ceases_lagOf _) fun _ => Flow.ceases_ask _

/-! ### Work -/

section Work

variable {ε α β : Type}

/-- Work that waits for nothing that never comes. -/
def CeasesWork (x : ExceptT ε Flow α) : Prop := Flow.Ceases x.run

theorem ceasesWork_pure (a : α) : CeasesWork (pure a : ExceptT ε Flow α) := trivial

theorem ceasesWork_throw (f : ε) : CeasesWork (throw f : ExceptT ε Flow α) := trivial

theorem ceasesWork_ofRefusal (x : Except Refusal α) : CeasesWork (Work.ofRefusal x) := trivial

theorem CeasesWork.bind {x : ExceptT ε Flow α} {f : α → ExceptT ε Flow β} (hx : CeasesWork x)
    (hf : ∀ a, CeasesWork (f a)) : CeasesWork (x >>= f) := by
  refine Flow.Ceases.bind hx fun r => ?_
  cases r with
  | ok a => exact hf a
  | error f => trivial

theorem ceasesWork_lift {x : Flow α} (hx : x.Ceases) :
    CeasesWork (ExceptT.lift x : ExceptT ε Flow α) := Flow.Ceases.bind hx fun _ => trivial

theorem ceasesWork_ask (a : Action) :
    CeasesWork (ExceptT.lift (Flow.ask a) : ExceptT ε Flow a.Answer) :=
  ceasesWork_lift (Flow.ceases_ask a)

theorem CeasesWork.within {x : Work α} (hx : CeasesWork x) (d : Deadline) :
    CeasesWork (Work.within d x) := by
  refine Flow.Ceases.bind (Flow.Ceases.before hx d.tick) fun r => ?_
  cases r <;> trivial

theorem ceasesWork_mapError {ε' : Type} {x : Flow (Except ε' α)} (f : ε' → ε) (hx : x.Ceases) :
    CeasesWork (ExceptT.mk do return (← x).mapError f : ExceptT ε Flow α) :=
  Flow.Ceases.bind hx fun _ => trivial

/-- A call of the store that has to be over by a deadline. -/
theorem ceasesWork_call {x : Flow (Except Outage α)} (hx : x.Ceases) (d : Deadline) :
    CeasesWork (Work.within d (Work.ofStore x)) := (ceasesWork_mapError _ hx).within d

theorem ceasesWork_request (p : RetryPolicy) (n : OrderNumber) (i : Item) :
    CeasesWork (Kitchen.request p n i) := by
  refine CeasesWork.bind (ceasesWork_ask .freshKey) fun key => ?_
  refine CeasesWork.bind (ceasesWork_ask .clock) fun time => ?_
  refine CeasesWork.bind (ceasesWork_mapError _ (ceases_publish _ _)) fun _ => ?_
  exact CeasesWork.bind (ceasesWork_lift (Flow.ceases_count _)) fun _ => ceasesWork_pure _

end Work

/-- A command whose work comes to an end. -/
theorem Command.ceases_of {α : Type} {work : Deadline → Work α} (h : ∀ d, CeasesWork (work d))
    (d : Deadline) : ((Command.of work).run d).Ceases := by
  refine Flow.Ceases.bind (h d) fun r => ?_
  cases r <;> trivial

end Takeaway
