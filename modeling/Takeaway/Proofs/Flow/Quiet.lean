import Takeaway.Kitchen
import Takeaway.Proofs.World.Aside

/-!
Runs of flows, and quiet flows: those that touch neither orders nor stock. Main statements: a run
of one flow after another is the one run after the other, a quiet flow leaves orders and stock as
they are, and sending and announcing are quiet.
-/

namespace Takeaway

open World (Aside)

/-! ### Quiet actions -/

/-- Whether an action leaves orders and stock as they are, whatever it meets. -/
def Action.isQuiet : Action → Bool
  | .nextNumber | .save _ | .take _ _ | .add _ _ => false
  | _ => true

theorem World.aside_note (w : World) (e : Envelope) : Aside {e} w (w.perform (.note e)).2 := by
  have ht : (w.perform (.note e)).2.traffic = w.traffic + {e} := by
    simp only [perform, traffic, underWay, messages_append]
    simp only [messages, List.map_cons, List.map_nil, Multiset.coe_singleton]
    abel
  exact ⟨⟨⟨List.prefix_refl _, ht.le⟩, rfl, rfl, id, fun _ => ht⟩, rfl, rfl⟩

theorem World.aside_perform (w : World) {a : Action} (ha : a.isQuiet = true) :
    ∃ new, Aside new w (w.perform a).2 := by
  cases a with
  | send e => exact ⟨_, aside_send w e⟩
  | note e => exact ⟨_, aside_note w e⟩
  | freshKey => exact ⟨0, aside_of_same rfl rfl rfl rfl⟩
  | count s n => exact ⟨0, aside_count w s n⟩
  | nextNumber | save _ | take _ _ | add _ _ => cases ha
  | _ => exact ⟨0, Aside.refl w⟩

namespace Flow

variable {α β : Type} (rank : World.Rank)

/-! ### Runs -/

theorem run_bind (x : Flow α) (f : α → Flow β) (w : World) :
    (x.bind f).run rank w = (f (x.run rank w).1).run rank (x.run rank w).2 := by
  induction x generalizing w with
  | done a => rfl
  | act a next ih => exact ih _ _
  | wait wt limit next ih => exact ih _ _

/-! ### Quiet flows -/

/-- A flow all of whose actions are quiet, whatever it is answered. -/
def Quiet : Flow α → Prop
  | done _ => True
  | act a next => a.isQuiet = true ∧ ∀ x, (next x).Quiet
  | wait _ _ next => ∀ b, (next b).Quiet

theorem quiet_done (a : α) : (done a).Quiet := trivial

theorem quiet_ask {a : Action} (ha : a.isQuiet = true) : (ask a).Quiet := ⟨ha, fun _ => trivial⟩

theorem Quiet.bind {x : Flow α} {f : α → Flow β} (hx : x.Quiet) (hf : ∀ a, (f a).Quiet) :
    (x.bind f).Quiet := by
  induction x with
  | done a => exact hf a
  | act a next ih => exact ⟨hx.1, fun y => ih y (hx.2 y)⟩
  | wait wt limit next ih => exact fun b => ih b (hx b)

theorem Quiet.before {x : Flow α} (hx : x.Quiet) (tick : Nat) : (x.before tick).Quiet := by
  induction x with
  | done a => trivial
  | act a next ih => exact ⟨hx.1, fun y => ih y (hx.2 y)⟩
  | wait wt limit next ih =>
    cases limit with
    | none =>
      intro b
      cases b
      · trivial
      · exact ih true (hx true)
    | some limit =>
      intro b
      cases b
      · by_cases hl : limit ≤ tick
        · simpa [hl] using ih false (hx false)
        · simp [hl, Quiet]
      · exact ih true (hx true)

/-- A quiet flow leaves orders and stock as they are. -/
theorem Quiet.run {x : Flow α} (hx : x.Quiet) (w : World) :
    ∃ new, Aside new w (x.run rank w).2 := by
  induction x generalizing w with
  | done a => exact ⟨0, Aside.refl w⟩
  | act a next ih =>
    obtain ⟨n₁, h₁⟩ := w.aside_perform hx.1
    obtain ⟨n₂, h₂⟩ := ih (w.perform a).1 (hx.2 _) (w.perform a).2
    exact ⟨n₁ + n₂, h₁.trans h₂⟩
  | wait wt limit next ih =>
    obtain ⟨n, h⟩ := ih (w.await rank wt limit).1 (hx _) (w.await rank wt limit).2
    exact ⟨n, (World.aside_await w rank wt limit).zero_trans h⟩

end Flow

/-! ### Quiet work -/

section Work

variable {ε α β : Type}

/-- Work all of whose actions are quiet. -/
def QuietWork (x : ExceptT ε Flow α) : Prop := Flow.Quiet x.run

theorem quietWork_pure (a : α) : QuietWork (pure a : ExceptT ε Flow α) := trivial

theorem quietWork_throw (e : ε) : QuietWork (throw e : ExceptT ε Flow α) := trivial

theorem QuietWork.bind {x : ExceptT ε Flow α} {f : α → ExceptT ε Flow β} (hx : QuietWork x)
    (hf : ∀ a, QuietWork (f a)) : QuietWork (x >>= f) := by
  refine Flow.Quiet.bind hx fun r => ?_
  cases r with
  | ok a => exact hf a
  | error e => trivial

theorem quietWork_lift {x : Flow α} (hx : x.Quiet) :
    QuietWork (ExceptT.lift x : ExceptT ε Flow α) :=
  Flow.Quiet.bind hx fun _ => trivial

theorem QuietWork.within {x : Work α} (hx : QuietWork x) (d : Deadline) :
    QuietWork (Work.within d x) := by
  refine Flow.Quiet.bind (Flow.Quiet.before hx d.tick) fun r => ?_
  cases r <;> trivial

end Work

theorem quiet_pause (s : Span) : (Flow.pause s).Quiet := fun _ => trivial

theorem quiet_count (s : Series) : (Flow.count s).Quiet := Flow.quiet_ask rfl

theorem quiet_lagOf (c : Store.Call) : (lagOf c).Quiet :=
  Flow.Quiet.bind (Flow.quiet_ask rfl) fun _ => quiet_pause _

theorem quiet_publish (p : RetryPolicy) (e : Envelope) : (publish p e).Quiet := by
  unfold publish
  generalize p.limit - 1 = left
  generalize 1 = i
  induction left generalizing i with
  | zero =>
    refine Flow.Quiet.bind (Flow.quiet_ask rfl) fun r => ?_
    cases r <;> trivial
  | succ left ih =>
    refine Flow.Quiet.bind (Flow.quiet_ask rfl) fun r => ?_
    cases r with
    | ok a => trivial
    | error f =>
      dsimp only
      split
      · exact Flow.Quiet.bind
          (Flow.Quiet.bind (quiet_count _) fun _ => quiet_pause _) fun _ => ih _
      · trivial

theorem quiet_notify (e : Envelope) : (notify e).Quiet := fun _ => Flow.quiet_ask rfl

theorem quietWork_publish (p : RetryPolicy) (e : Envelope) : QuietWork (Work.publish p e) :=
  Flow.Quiet.bind (quiet_publish p e) fun _ => trivial

/-- Telling of something at the present time is quiet. -/
theorem quietWork_tell {α : Type} (p : RetryPolicy) (tell : Timestamp → Envelope) (a : α) :
    QuietWork (do
      Work.publish p (tell (← Flow.ask .clock))
      return a) :=
  QuietWork.bind (quietWork_lift (Flow.quiet_ask rfl)) fun _ =>
    QuietWork.bind (quietWork_publish _ _) fun _ => quietWork_pure _

theorem quietWork_request (p : RetryPolicy) (n : OrderNumber) (i : Item) :
    QuietWork (Kitchen.request p n i) := by
  refine QuietWork.bind (quietWork_lift (Flow.quiet_ask rfl)) fun key => ?_
  refine QuietWork.bind (quietWork_lift (Flow.quiet_ask rfl)) fun time => ?_
  refine QuietWork.bind (quietWork_publish _ _) fun _ => ?_
  exact QuietWork.bind (quietWork_lift (quiet_count _)) fun _ => quietWork_pure _

end Takeaway
