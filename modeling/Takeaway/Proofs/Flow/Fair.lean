import Takeaway.Proofs.Flow.Quiet
import Takeaway.Proofs.Order.Sound

/-!
Fair flows: as long as the orders they are given are sound, so are the orders that they save, and
these hold nothing of a stocked item but what was taken out of stock for them. What a flow may
rely on survives whatever others do meanwhile, so fairness holds among any number of flows.
-/

namespace Takeaway

/-- Units that were taken out of stock, by the order and the item that they were taken for. -/
abbrev Takings := OrderNumber → String → Nat

/-- The takings with some more units for an order. -/
def Takings.plus (g : Takings) (n : OrderNumber) (item : String) (units : Nat) : Takings :=
  fun k i => g k i + if k = n ∧ i = item then units else 0

theorem Takings.le_plus (g : Takings) (n : OrderNumber) (item : String) (units : Nat) :
    g ≤ g.plus n item units := fun _ _ => Nat.le_add_right _ _

theorem Takings.plus_self (g : Takings) (n : OrderNumber) (item : String) (units : Nat) :
    g.plus n item units n item = g n item + units := by simp [plus]

/-- A sound order that holds nothing of a stocked item but what was taken out of stock for it. -/
structure Order.Backed (m : Menu) (g : Takings) (o : Order) : Prop where
  sound : o.Sound m
  taken : ∀ i, m.isInstant i = .ok false → o.packedOf i ≤ g o.number i

theorem Order.Backed.mono {m : Menu} {g g' : Takings} {o : Order} (h : o.Backed m g)
    (hg : g ≤ g') : o.Backed m g' :=
  ⟨h.sound, fun i hi => Nat.le_trans (h.taken i hi) (hg _ _)⟩

/-! ### What flows rely on and keep to -/

/-- What an answer may be relied on for: orders that were looked up are backed. -/
def Action.Relies (m : Menu) (g : Takings) : (a : Action) → a.Answer → Prop
  | .fetch n, r => ∀ o, r = .ok (some o) → o.Backed m g ∧ o.number = n
  | .search _, r => ∀ os, r = .ok os → ∀ o ∈ os, o.Backed m g
  | _, _ => True

/-- What has to hold for an action: an order that is saved is backed. -/
def Action.Permits (m : Menu) (g : Takings) : Action → Prop
  | .save o => o.Backed m g
  | _ => True

/-- The takings after an action, if what it takes is for the given order. -/
def Action.credit (n : OrderNumber) (g : Takings) : (a : Action) → a.Answer → Takings
  | .take item q, .ok () => g.plus n item q.units
  | _, _ => g

theorem Action.le_credit (n : OrderNumber) (g : Takings) (a : Action) (r : a.Answer) :
    g ≤ a.credit n g r := by
  unfold credit
  split
  · exact g.le_plus n _ _
  · exact le_rfl

namespace Flow

variable {m : Menu} {α β : Type}

/-- **A fair flow**: it keeps to what its actions ask for, as long as the answers are such as may
be relied on and others only ever add to the takings; at its end the given statement holds. -/
def Fair (m : Menu) : Flow α → Takings → (α → Takings → Prop) → Prop
  | done a, g, p => p a g
  | act a next, g, p => a.Permits m g ∧ ∃ n, ∀ g', g ≤ g' → ∀ r, a.Relies m g' r →
      (next r).Fair m (a.credit n g' r) p
  | wait _ _ next, g, p => ∀ b g', g ≤ g' → (next b).Fair m g' p

theorem Fair.imp {x : Flow α} {g : Takings} {p q : α → Takings → Prop} (h : x.Fair m g p)
    (hpq : ∀ a g', g ≤ g' → p a g' → q a g') : x.Fair m g q := by
  induction x generalizing g with
  | done a => exact hpq a g le_rfl h
  | act a next ih =>
    obtain ⟨hs, n, hn⟩ := h
    refine ⟨hs, n, fun g' hg r hr => ih r (hn g' hg r hr) fun b g'' hg' hp => ?_⟩
    exact hpq b g'' (hg.trans ((a.le_credit n g' r).trans hg')) hp
  | wait w limit next ih =>
    exact fun b g' hg => ih b (h b g' hg) fun c g'' hg' hp => hpq c g'' (hg.trans hg') hp

/-- What others take meanwhile does no harm. -/
theorem Fair.mono {x : Flow α} {g g' : Takings} {p : α → Takings → Prop} (h : x.Fair m g p)
    (hp : ∀ a g₁ g₂, g₁ ≤ g₂ → p a g₁ → p a g₂) (hg : g ≤ g') : x.Fair m g' p := by
  cases x with
  | done a => exact hp a g g' hg h
  | act a next =>
    obtain ⟨hs, n, hn⟩ := h
    refine ⟨?_, n, fun g₁ hg₁ r hr => hn g₁ (hg.trans hg₁) r hr⟩
    cases a with
    | save o => exact Order.Backed.mono hs hg
    | _ => trivial
  | wait w limit next => exact fun b g₁ hg₁ => h b g₁ (hg.trans hg₁)

theorem Fair.bind {x : Flow α} {f : α → Flow β} {g : Takings} {p : α → Takings → Prop}
    {q : β → Takings → Prop} (hx : x.Fair m g p)
    (hf : ∀ a g', g ≤ g' → p a g' → (f a).Fair m g' q) : (x.bind f).Fair m g q := by
  induction x generalizing g with
  | done a => exact hf a g le_rfl hx
  | act a next ih =>
    obtain ⟨hs, n, hn⟩ := hx
    refine ⟨hs, n, fun g' hg r hr => ih r (hn g' hg r hr) fun b g'' hg' hp => ?_⟩
    exact hf b g'' (hg.trans ((a.le_credit n g' r).trans hg')) hp
  | wait w limit next ih =>
    exact fun b g' hg => ih b (hx b g' hg) fun c g'' hg' hp => hf c g'' (hg.trans hg') hp

/-- A flow that is given up at some tick is fair as far as it got. -/
theorem Fair.before {x : Flow α} {g : Takings} {p : α → Takings → Prop} (h : x.Fair m g p)
    (tick : Nat) : (x.before tick).Fair m g fun r g => ∀ a, r = some a → p a g := by
  induction x generalizing g with
  | done a =>
    intro b hb
    cases hb
    exact h
  | act a next ih =>
    obtain ⟨hs, n, hn⟩ := h
    exact ⟨hs, n, fun g' hg r hr => ih r (hn g' hg r hr)⟩
  | wait w limit next ih =>
    cases limit with
    | none =>
      intro b g' hg
      cases b
      · intro a ha
        cases ha
      · exact ih true (h true g' hg)
    | some limit =>
      intro b g' hg
      cases b
      · by_cases hl : limit ≤ tick
        · simpa [hl] using ih false (h false g' hg)
        · simp [hl, Fair]
      · exact ih true (h true g' hg)

/-- A quiet flow is fair. -/
theorem Quiet.fair {x : Flow α} (hx : x.Quiet) (g : Takings) : x.Fair m g fun _ _ => True := by
  induction x generalizing g with
  | done a => trivial
  | act a next ih =>
    obtain ⟨hq, hn⟩ := hx
    refine ⟨?_, ⟨0⟩, fun g' _ r _ => ih r (hn r) _⟩
    cases a with
    | save o => cases hq
    | _ => trivial
  | wait w limit next ih => exact fun b g' _ => ih b (hx b) g'

end Flow

/-! ### Fair work -/

section Work

variable {m : Menu} {ε α β : Type}

/-- Fair work; of its failures nothing is asked. -/
def FairWork (m : Menu) (x : ExceptT ε Flow α) (g : Takings) (p : α → Takings → Prop) : Prop :=
  Flow.Fair m x.run g fun r g => ∀ a, r = .ok a → p a g

variable {g : Takings} {p : α → Takings → Prop} {q : β → Takings → Prop}

theorem fairWork_pure {a : α} (h : p a g) : FairWork m (pure a : ExceptT ε Flow α) g p := by
  intro b hb
  cases hb
  exact h

theorem fairWork_throw (e : ε) : FairWork m (throw e : ExceptT ε Flow α) g p := by
  intro b hb
  cases hb

theorem FairWork.imp {p' : α → Takings → Prop} {x : ExceptT ε Flow α} (h : FairWork m x g p)
    (hp : ∀ a g', g ≤ g' → p a g' → p' a g') : FairWork m x g p' :=
  Flow.Fair.imp h fun _ g' hg hr a ha => hp a g' hg (hr a ha)

theorem FairWork.bind {x : ExceptT ε Flow α} {f : α → ExceptT ε Flow β} (hx : FairWork m x g p)
    (hf : ∀ a g', g ≤ g' → p a g' → FairWork m (f a) g' q) : FairWork m (x >>= f) g q := by
  refine Flow.Fair.bind hx fun r g' hg hr => ?_
  cases r with
  | ok a => exact hf a g' hg (hr a rfl)
  | error e =>
    intro b hb
    cases hb

theorem fairWork_lift {x : Flow α} (hx : x.Fair m g p) :
    FairWork m (ExceptT.lift x : ExceptT ε Flow α) g p := by
  refine Flow.Fair.bind hx fun a g' _ ha b hb => ?_
  cases hb
  exact ha

theorem fairWork_ofRefusal {x : Except Refusal α} (h : ∀ a, x = .ok a → p a g) :
    FairWork m (Work.ofRefusal x) g p := by
  cases x with
  | ok a => exact fairWork_pure (h a rfl)
  | error e => exact fairWork_throw _

theorem FairWork.within {x : Work α} (hx : FairWork m x g p) (d : Deadline) :
    FairWork m (Work.within d x) g p := by
  refine Flow.Fair.bind (Flow.Fair.before hx d.tick) fun r g' _ hr => ?_
  cases r with
  | none =>
    intro b hb
    cases hb
  | some r => exact hr r rfl

theorem fairWork_mapError {ε' : Type} {x : Flow (Except ε' α)} (f : ε' → ε)
    (hx : x.Fair m g fun r g => ∀ a, r = .ok a → p a g) :
    FairWork m (ExceptT.mk do return (← x).mapError f : ExceptT ε Flow α) g p := by
  refine Flow.Fair.bind hx fun r g' _ hr => ?_
  cases r with
  | ok a =>
    intro b hb
    cases hb
    exact hr a rfl
  | error e =>
    intro b hb
    cases hb

theorem fairWork_ofStore {x : Flow (Except Outage α)}
    (hx : x.Fair m g fun r g => ∀ a, r = .ok a → p a g) : FairWork m (Work.ofStore x) g p :=
  fairWork_mapError _ hx

theorem QuietWork.fair {x : ExceptT ε Flow α} (hx : QuietWork x) (g : Takings) :
    FairWork m x g fun _ _ => True :=
  Flow.Fair.imp (Flow.Quiet.fair hx g) fun _ _ _ _ _ _ => trivial

end Work

end Takeaway
