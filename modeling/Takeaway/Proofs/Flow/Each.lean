import Takeaway.Proofs.Flow.Quiet

/-!
Flows all of whose actions have some property, whatever they are answered. Main statement: what
each action with the property keeps, and the passing of time keeps, is kept by a run of the flow.
-/

namespace Takeaway

open World (Aside)

namespace Flow

variable {α β : Type} {P : Action → Prop}

/-- A flow all of whose actions have the property, whatever it is answered. -/
def Each (P : Action → Prop) : Flow α → Prop
  | done _ => True
  | act a next => P a ∧ ∀ r, (next r).Each P
  | wait _ _ next => ∀ b, (next b).Each P

theorem each_ask {a : Action} (ha : P a) : (ask a).Each P := ⟨ha, fun _ => trivial⟩

theorem Each.bind {x : Flow α} {f : α → Flow β} (hx : x.Each P) (hf : ∀ a, (f a).Each P) :
    (x.bind f).Each P := by
  induction x with
  | done a => exact hf a
  | act a next ih => exact ⟨hx.1, fun r => ih r (hx.2 r)⟩
  | wait wt limit next ih => exact fun b => ih b (hx b)

/-- A flow that is given up at some tick does nothing else. -/
theorem Each.before {x : Flow α} (hx : x.Each P) (tick : Nat) : (x.before tick).Each P := by
  induction x with
  | done a => trivial
  | act a next ih => exact ⟨hx.1, fun r => ih r (hx.2 r)⟩
  | wait wt limit next ih =>
    cases limit with
    | none =>
      intro b
      cases b
      · trivial
      · exact ih true (hx true)
    | some limit =>
      intro b
      cases b
      · by_cases hl : limit ≤ tick
        · simpa only [hl, Bool.false_eq_true, if_false, if_true] using ih false (hx false)
        · simp only [hl, Bool.false_eq_true, if_false, Each]
      · exact ih true (hx true)

theorem Quiet.each {x : Flow α} (hx : x.Quiet) (hP : ∀ a : Action, a.isQuiet = true → P a) :
    x.Each P := by
  induction x with
  | done a => trivial
  | act a next ih => exact ⟨hP a hx.1, fun r => ih r (hx.2 r)⟩
  | wait wt limit next ih => exact fun b => ih b (hx b)

/-- **What each action keeps**, and the passing of time, a run of the flow keeps. -/
theorem Each.run {I : World → Prop} {rank : World.Rank} {x : Flow α} (hx : x.Each P)
    (hact : ∀ w a, P a → I w → I (World.perform w a).2) (haside : ∀ w v, Aside 0 w v → I w → I v)
    {w : World} (hw : I w) : I (x.run rank w).2 := by
  induction x generalizing w with
  | done a => exact hw
  | act a next ih => exact ih _ (hx.2 _) (hact w a hx.1 hw)
  | wait wt limit next ih => exact ih _ (hx _) (haside _ _ (w.aside_await rank wt limit) hw)

end Flow

/-! ### Work -/

section Work

variable {ε α β : Type} {P : Action → Prop}

/-- Work all of whose actions have the property. -/
def EachWork (P : Action → Prop) (x : ExceptT ε Flow α) : Prop := Flow.Each P x.run

theorem eachWork_pure (a : α) : EachWork P (pure a : ExceptT ε Flow α) := trivial

theorem eachWork_throw (f : ε) : EachWork P (throw f : ExceptT ε Flow α) := trivial

theorem EachWork.bind {x : ExceptT ε Flow α} {f : α → ExceptT ε Flow β} (hx : EachWork P x)
    (hf : ∀ a, EachWork P (f a)) : EachWork P (x >>= f) := by
  refine Flow.Each.bind hx fun r => ?_
  cases r with
  | ok a => exact hf a
  | error f => trivial

theorem eachWork_lift {x : Flow α} (hx : x.Each P) :
    EachWork P (ExceptT.lift x : ExceptT ε Flow α) := Flow.Each.bind hx fun _ => trivial

theorem eachWork_ofRefusal (x : Except Refusal α) : EachWork P (Work.ofRefusal x) := trivial

/-- Work that goes on with what was not refused. -/
theorem eachWork_ofRefusal_bind {x : Except Refusal α} {f : α → Work β}
    (hf : ∀ a, x = .ok a → EachWork P (f a)) : EachWork P (Work.ofRefusal x >>= f) := by
  cases x with
  | ok a => exact hf a rfl
  | error r => trivial

theorem eachWork_mapError {ε' : Type} {x : Flow (Except ε' α)} (f : ε' → ε) (hx : x.Each P) :
    EachWork P (ExceptT.mk do return (← x).mapError f : ExceptT ε Flow α) :=
  Flow.Each.bind hx fun _ => trivial

theorem EachWork.within {x : Work α} (hx : EachWork P x) (d : Deadline) :
    EachWork P (Work.within d x) := by
  refine Flow.Each.bind (Flow.Each.before hx d.tick) fun r => ?_
  cases r <;> trivial

end Work

end Takeaway
