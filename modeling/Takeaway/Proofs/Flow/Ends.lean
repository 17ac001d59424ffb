import Takeaway.Proofs.Flow.Run

/-!
How runs of flows end. Main statements: the rules by which the end of a flow follows from the ends
of its parts, and that a flow that does not wait is not hurt by a limit, so that calls of a store
without disturbances are over at once whatever the deadline.
-/

namespace Takeaway

open World (Aside)

namespace Flow

variable {α β : Type} {rank : World.Rank} {w : World}

/-- The run of a flow by itself ends with a value and a world of which a statement holds. -/
def Ends (rank : World.Rank) (x : Flow α) (w : World) (p : α → World → Prop) : Prop :=
  p (x.run rank w).1 (x.run rank w).2

variable {p : α → World → Prop} {q : β → World → Prop}

theorem ends_done {a : α} (h : p a w) : (done a).Ends rank w p := h

theorem ends_ask {a : Action} {p : a.Answer → World → Prop}
    (h : p (w.perform a).1 (w.perform a).2) : (ask a).Ends rank w p := h

theorem ends_wait {wt : Wait} {limit : Option Nat} {next : Bool → Flow α}
    (h : (next (w.await rank wt limit).1).Ends rank (w.await rank wt limit).2 p) :
    (wait wt limit next).Ends rank w p := h

theorem Ends.imp {x : Flow α} {p' : α → World → Prop} (h : x.Ends rank w p)
    (hp : ∀ a w', p a w' → p' a w') : x.Ends rank w p' := hp _ _ h

theorem Ends.and {x : Flow α} {p' : α → World → Prop} (h : x.Ends rank w p)
    (h' : x.Ends rank w p') : x.Ends rank w fun a w' => p a w' ∧ p' a w' := ⟨h, h'⟩

theorem Ends.bind {x : Flow α} {f : α → Flow β} (hx : x.Ends rank w p)
    (hf : ∀ a w', p a w' → (f a).Ends rank w' q) : (x.bind f).Ends rank w q := by
  unfold Ends
  rw [run_bind]
  exact hf _ _ hx

theorem Quiet.ends {x : Flow α} (hx : x.Quiet) :
    x.Ends rank w fun _ w' => ∃ new, Aside new w w' := hx.run rank w

/-! ### Flows that do not wait -/

/-- A flow that, run from a world, comes to no wait but for no time. -/
def Prompt : Flow α → World → Prop
  | done _, _ => True
  | act a next, w => (next (w.perform a).1).Prompt (w.perform a).2
  | wait (.pause s) _ next, w => s.ticks = 0 ∧ (next true).Prompt w
  | wait _ _ _, _ => False

theorem await_of_ticks {s : Span} (hs : s.ticks = 0) (limit : Option Nat) :
    w.await rank (.pause s) limit = (true, w) := by
  have ho : Wait.outcome w.now (.pause s) limit = .now true := by
    cases limit <;> exact if_pos hs
  unfold World.await
  rw [ho]

theorem run_wait (wt : Wait) (limit : Option Nat) (next : Bool → Flow α) (w : World) :
    (wait wt limit next).run rank w =
      (next (w.await rank wt limit).1).run rank (w.await rank wt limit).2 := rfl

/-- A flow that does not wait does the same under any limit. -/
theorem Prompt.run_before {x : Flow α} (hx : x.Prompt w) (tick : Nat) :
    (x.before tick).run rank w = (some (x.run rank w).1, (x.run rank w).2) := by
  induction x generalizing w with
  | done a => rfl
  | act a next ih => exact ih _ hx
  | wait wt limit next ih =>
    cases wt with
    | pause s =>
      obtain ⟨hs, hnext⟩ := hx
      have hw : ((wait (.pause s) limit next).before tick).run rank w =
          ((next true).before tick).run rank w := by
        cases limit <;> rw [before, run_wait, await_of_ticks hs] <;> rfl
      rw [hw, run_wait, await_of_ticks hs]
      exact ih true hnext
    | forever => cases hx
    | slot => cases hx

end Flow

/-! ### Work -/

section Work

variable {ε α β : Type} {rank : World.Rank} {w : World}

/-- The run of some work by itself ends with a result and a world of which a statement holds. -/
def WorkEnds (rank : World.Rank) (x : ExceptT ε Flow α) (w : World)
    (p : Except ε α → World → Prop) : Prop := Flow.Ends rank x.run w p

variable {p : Except ε α → World → Prop} {q : Except ε β → World → Prop}

theorem workEnds_pure {a : α} (h : p (.ok a) w) :
    WorkEnds rank (pure a : ExceptT ε Flow α) w p := h

theorem workEnds_throw {e : ε} (h : p (.error e) w) :
    WorkEnds rank (throw e : ExceptT ε Flow α) w p := h

theorem WorkEnds.imp {x : ExceptT ε Flow α} {p' : Except ε α → World → Prop}
    (h : WorkEnds rank x w p) (hp : ∀ r w', p r w' → p' r w') : WorkEnds rank x w p' := hp _ _ h

theorem WorkEnds.bind {x : ExceptT ε Flow α} {f : α → ExceptT ε Flow β}
    (hx : WorkEnds rank x w p) (hok : ∀ a w', p (.ok a) w' → WorkEnds rank (f a) w' q)
    (herr : ∀ e w', p (.error e) w' → q (.error e) w') : WorkEnds rank (x >>= f) w q := by
  refine Flow.Ends.bind hx fun r w' hr => ?_
  cases r with
  | ok a => exact hok a w' hr
  | error e => exact herr e w' hr

theorem workEnds_lift {x : Flow α} (h : x.Ends rank w fun a w' => p (.ok a) w') :
    WorkEnds rank (ExceptT.lift x : ExceptT ε Flow α) w p :=
  Flow.Ends.bind h fun _ _ ha => ha

/-- Work that goes on after a flow, which cannot fail. -/
theorem Flow.Ends.bind_lift {x : Flow α} {f : α → ExceptT ε Flow β} {p : α → World → Prop}
    (hx : x.Ends rank w p) (hf : ∀ a w', p a w' → WorkEnds rank (f a) w' q) :
    WorkEnds rank (ExceptT.lift x >>= f) w q := by
  refine WorkEnds.bind (p := fun r w' => ∃ a, r = .ok a ∧ p a w')
    (workEnds_lift (hx.imp fun a _ ha => ⟨a, rfl, ha⟩)) ?_ (by rintro _ _ ⟨_, ⟨⟩, -⟩)
  rintro a w' ⟨_, ⟨⟩, ha⟩
  exact hf a w' ha

/-- Work that goes on unless something is refused. -/
theorem workEnds_bind_ofRefusal {x : Except Refusal α} {f : α → Work β}
    {q : Except Fault β → World → Prop} (hok : ∀ a, x = .ok a → WorkEnds rank (f a) w q)
    (herr : ∀ r, x = .error r → q (.error (Fault.ofRefusal r)) w) :
    WorkEnds rank (Work.ofRefusal x >>= f) w q := by
  cases x with
  | ok a => exact hok a rfl
  | error r => exact herr r rfl

theorem QuietWork.ends {x : ExceptT ε Flow α} (hx : QuietWork x) :
    WorkEnds rank x w fun _ w' => ∃ new, Aside new w w' := Flow.Quiet.ends hx

/-- Work that does not wait is not hurt by a deadline. -/
theorem WorkEnds.within {x : Work α} {p : Except Fault α → World → Prop}
    (h : WorkEnds rank x w p) (hx : Flow.Prompt x.run w) (d : Deadline) :
    WorkEnds rank (Work.within d x) w p := by
  refine Flow.Ends.bind (p := fun r w' => ∃ a, r = some a ∧ p a w') ?_ ?_
  · unfold Flow.Ends
    rw [hx.run_before]
    exact ⟨_, rfl, h⟩
  · rintro _ w' ⟨a, rfl, ha⟩
    exact ha

end Work

end Takeaway
