import Takeaway.Proofs.Http.Answer
import Takeaway.Proofs.Sequence

/-!
Sequential runs in which the engine is used directly and through its interface, one step after
another. Main statement: every world that such a run reaches is orderly, no taking of units was
ever refused in it, and nothing but notices is under way.
-/

namespace Takeaway

open World (Orderly Steady)

variable {w : World}

/-! ### Requests are fair -/

namespace Http

variable {m : Menu} {g : Takings}

theorem fair_given {α : Type} {x : Except Nat α} {next : α → Reply}
    (h : ∀ a, (next a).run.Fair m g fun _ _ => True) :
    (Reply.given x next).run.Fair m g fun _ _ => True := by
  cases x with
  | ok a => exact h a
  | error s => trivial

theorem fair_meant {α : Type} {x : Except Problem α} {next : α → Reply}
    (h : ∀ a, (next a).run.Fair m g fun _ _ => True) :
    (Reply.meant x next).run.Fair m g fun _ _ => True := by
  cases x with
  | ok a => exact h a
  | error p => trivial

theorem fair_ofWork {α : Type} {x : Work α} (hx : FairWork m x g fun _ _ => True)
    (response : α → Response) : (Reply.ofWork x response).run.Fair m g fun _ _ => True :=
  Flow.Fair.bind hx fun _ _ _ _ => trivial

/-- Looking at the store is quiet. -/
theorem quietWork_look {α : Type} {x : Flow (Except Outage α)} (hx : x.Quiet) :
    QuietWork (Work.ofDesk (Desk.ofStore x)) :=
  Flow.Quiet.bind (Flow.Quiet.bind hx fun _ => trivial) fun _ => trivial

theorem quiet_call {α : Type} {x : Flow (Except Outage α)} (c : Store.Call) (hx : x.Quiet) :
    Flow.Quiet (do lagOf c; x) :=
  Flow.Quiet.bind (quiet_lagOf c) fun _ => hx

variable (e : Engine) (topic : String) (r : Request)

theorem fair_reply (endpoint : Endpoint) :
    (reply e topic r endpoint).run.Fair e.menu g fun _ _ => True := by
  cases endpoint with
  | health => trivial
  | metrics =>
    refine Flow.Quiet.fair ?_ g
    exact ⟨rfl, fun _ => trivial⟩
  | place => exact fair_given fun (customer, items) => fair_ofWork (e.fair_place customer items) _
  | list =>
    refine fair_given fun s => fair_meant fun f => fair_ofWork (QuietWork.fair ?_ g) _
    exact quietWork_look (quiet_call .find (Flow.quiet_ask (a := .search f) rfl))
  | sweep => exact fair_ofWork e.fair_requestSweep _
  | get segment =>
    refine fair_given fun s => fair_meant fun n => Flow.Quiet.fair ?_ g
    have hget : QuietWork (Work.ofDesk (Desk.get n)) :=
      quietWork_look (quiet_call .get (Flow.quiet_ask (a := .fetch n) rfl))
    refine QuietWork.bind (quietWork_lift hget) fun res => ?_
    rcases res with f | _ | o <;> trivial
  | collect segment =>
    exact fair_given fun s => fair_meant fun n => fair_ofWork (e.fair_collect n) _
  | inventory =>
    refine Flow.Quiet.fair ?_ g
    exact ⟨rfl, fun _ => trivial⟩
  | addInventory => exact fair_given fun i => fair_ofWork (e.fair_addInventory i.name i.quantity) _

/-- **What is done about a request is fair.** -/
theorem fair_respond : (respond e topic r).Fair e.menu g fun _ _ => True := by
  unfold respond
  cases endpoint r with
  | error s => trivial
  | ok endpoint =>
    refine Flow.Fair.bind (fair_reply e topic r endpoint) fun res g' _ _ => ?_
    cases res with
    | error p =>
      refine Flow.Quiet.fair ?_ g'
      exact ⟨rfl, fun _ => trivial⟩
    | ok response => trivial

end Http

/-! ### Steps -/

/-- What a request is answered, and the world that is left. -/
def Engine.answer (e : Engine) (r : Http.Request) (w : World) : Http.Response × World :=
  (Http.respond e w.topic r).run .first w

/-- A step of a run: an operation, or a request. -/
inductive Step where
  | operate (op : Operation)
  | request (r : Http.Request)

/-- What a step leaves behind. -/
def Step.run (e : Engine) (w : World) : Step → World
  | operate op => op.run e w
  | request r => (e.answer r w).2

/-- The world that some steps reach from the start. -/
def Engine.reached (e : Engine) (steps : List Step) : World :=
  steps.foldl (fun w s => s.run e w) e.start

namespace Engine

variable {e : Engine}

theorem reached_append (steps : List Step) (s : Step) :
    e.reached (steps ++ [s]) = s.run e (e.reached steps) := List.foldl_append

/-- What holds at the start and is kept by every step holds of all that is reached. -/
theorem reached_invariant {P : World → Prop} (hstart : P e.start)
    (hstep : ∀ w (s : Step), P w → P (s.run e w)) (steps : List Step) : P (e.reached steps) := by
  induction steps using List.reverseRecOn with
  | nil => exact hstart
  | append_singleton steps s ih =>
    rw [reached_append]
    exact hstep _ s ih

theorem tidy_reached (e : Engine) (steps : List Step) : (e.reached steps).Tidy := by
  refine reached_invariant (World.tidy_start e) (fun w s h => ?_) steps
  cases s with
  | operate op => exact h.operation op
  | request r => exact Flow.run_tidy .first _ h

theorem backed_reached (e : Engine) (steps : List Step) :
    ∃ g, (e.reached steps).Backed e.menu g := by
  refine reached_invariant (P := fun w => ∃ g, w.Backed e.menu g)
    ⟨0, (by rintro n o ⟨⟩), rfl⟩ (fun w s => ?_) steps
  rintro ⟨g, h⟩
  cases s with
  | operate op => exact h.operation op
  | request r =>
    obtain ⟨g', -, hb, -⟩ := Flow.Fair.run .first (Http.fair_respond e w.topic r) h
    exact ⟨g', hb⟩

/-- **Every world that is reached is orderly.** -/
theorem orderly_reached (e : Engine) (steps : List Step) : (e.reached steps).Orderly e.menu := by
  obtain ⟨g, hg⟩ := backed_reached e steps
  exact ⟨tidy_reached e steps, hg.sound⟩

/-! ### Steady steps -/

theorem accounted_handled (hw : w.Orderly e.menu) (m : Envelope) :
    ∃ r, (e.handle m w).1 = [r] ∧ Accounted w r (e.handled m w) := by
  refine ⟨_, by rw [handle_eq, Flow.runEach_one], ?_⟩
  have h : Accounted w ((e.response m).run .inTurn w).1 ((e.response m).run .inTurn w).2 :=
    accounted_response hw m
  unfold handled
  rw [handle_eq, Flow.runEach_one]
  -- setting the clock touches nothing else
  refine ⟨fun f hf => (h.1 f hf).imp_right fun h => ⟨h.1, h.2.trans ⟨rfl, rfl, rfl, rfl⟩⟩, ?_⟩
  exact h.2.trans (World.steady_of_same rfl rfl)

theorem settled_answer (hs : w.store.script = []) (r : Http.Request) :
    Http.Settled w (e.answer r w).1.status (e.answer r w).2 := Http.ends_respond e w.topic r hs

/-- **Every step keeps the world steady.** -/
theorem steady_step (hw : w.Orderly e.menu) (s : Step) : w.Steady (s.run e w) := by
  cases s with
  | operate op =>
    cases op with
    | place customer items => exact (e.clean_place customer items).of_first.2
    | addInventory item q => exact (e.clean_addInventory item q).of_first.2
    | collect n => exact (e.clean_collect hw.script n).of_first.2
    | requestSweep => exact e.clean_requestSweep.of_first.2
    | handle m =>
      obtain ⟨r, -, h⟩ := accounted_handled hw m
      exact h.2
    | rest wait limit => exact w.steady_await .first wait limit
    | settle => exact w.steady_settle
    | _ => exact World.steady_of_same rfl rfl
  | request r => exact (settled_answer hw.script r).2

theorem steady_reached (e : Engine) (steps : List Step) : e.start.Steady (e.reached steps) := by
  induction steps using List.reverseRecOn with
  | nil => exact Steady.refl _
  | append_singleton steps s ih =>
    rw [reached_append]
    exact ih.trans (steady_step (orderly_reached e steps) s)

end Engine

end Takeaway
