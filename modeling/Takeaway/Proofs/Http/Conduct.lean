import Takeaway.Proofs.Acceptance
import Takeaway.Proofs.Contracts

/-!
Answering requests is of good conduct, as the operations behind them are. Main statement: in every
world that a run reaches, with requests among its steps, all messages that were sent or are under
way are true.
-/

namespace Takeaway

open World (Says)

variable {e : Engine} {w : World}

/-! ### Requests -/

namespace Http

variable {m : Menu}

theorem surely_given {α : Type} {x : Except Nat α} {next : α → Reply} (hw : w.Sound m)
    (h : ∀ a, WorkSurely (next a) w fun l _ w' => Conduct m l w w') :
    WorkSurely (Reply.given x next) w fun l _ w' => Conduct m l w w' := by
  cases x with
  | ok a => exact h a
  | error s => exact workSurely_pure (.of_orders hw rfl)

theorem surely_meant {α : Type} {x : Except Problem α} {next : α → Reply} (hw : w.Sound m)
    (h : ∀ a, WorkSurely (next a) w fun l _ w' => Conduct m l w w') :
    WorkSurely (Reply.meant x next) w fun l _ w' => Conduct m l w w' := by
  cases x with
  | ok a => exact h a
  | error p => exact workSurely_throw (.of_orders hw rfl)

theorem surely_ofWork {α : Type} {x : Work α}
    (hx : WorkSurely x w fun l _ w' => Conduct m l w w') (response : α → Response) :
    WorkSurely (Reply.ofWork x response) w fun l _ w' => Conduct m l w w' := by
  refine Flow.Surely.bind hx fun l r w' h => Flow.surely_done ?_
  rwa [List.append_nil]

/-- Looking at the store says nothing. -/
theorem calmWork_look {p : Envelope → Prop} {α : Type} {x : Flow (Except Outage α)}
    (c : Store.Call) (hx : x.Calm p) :
    CalmWork p (Work.ofDesk (Desk.ofStore (do lagOf c; x))) := by
  have hlag : (lagOf c).Calm p := Flow.Calm.bind (Flow.calm_ask trivial) fun _ _ => trivial
  have hcall : (do lagOf c; x : Flow (Except Outage α)).Calm p := Flow.Calm.bind hlag fun _ => hx
  exact Flow.Calm.bind (Flow.Calm.bind hcall fun _ => trivial) fun _ => trivial

/-- Silent work is of good conduct. -/
theorem surely_silent {ε α : Type} {x : ExceptT ε Flow α} (hx : CalmWork (fun _ => False) x)
    (hw : w.Sound m) : WorkSurely x w fun l _ w' => Conduct m l w w' :=
  Flow.Calm.conduct hx hw fun _ hp => hp.elim

variable (topic : String) (r : Request)

theorem surely_reply (hw : w.Orderly e.menu) (endpoint : Endpoint) :
    WorkSurely (reply e topic r endpoint) w fun l _ w' => Conduct e.menu l w w' := by
  have hs := hw.sound
  cases endpoint with
  | health => exact workSurely_pure (.of_orders hs rfl)
  | metrics => exact surely_silent ⟨trivial, fun _ => trivial⟩ hs
  | inventory => exact surely_silent ⟨trivial, fun _ => trivial⟩ hs
  | place => exact surely_given hs fun (customer, items) =>
      surely_ofWork (Engine.surely_place hw customer items) _
  | list =>
    refine surely_given hs fun s => surely_meant hs fun f => surely_ofWork (surely_silent ?_ hs) _
    exact calmWork_look .find (Flow.calm_ask (a := .search f) trivial)
  | sweep => exact surely_ofWork (Engine.surely_requestSweep hs) _
  | get segment =>
    refine surely_given hs fun s => surely_meant hs fun n => surely_silent ?_ hs
    have hget : CalmWork (fun _ => False) (Work.ofDesk (Desk.get n)) :=
      calmWork_look .get (Flow.calm_ask (a := .fetch n) trivial)
    refine CalmWork.bind (calmWork_lift hget) fun res => ?_
    rcases res with f | _ | o <;> trivial
  | collect segment =>
    exact surely_given hs fun s => surely_meant hs fun n =>
      surely_ofWork (Engine.surely_collect hs n) _
  | addInventory =>
    exact surely_given hs fun i =>
      surely_ofWork (Engine.surely_addInventory hs i.name i.quantity) _

/-- **Answering a request is of good conduct.** -/
theorem surely_respond (hw : w.Orderly e.menu) :
    (respond e topic r).Surely w fun l _ w' => Conduct e.menu l w w' := by
  unfold respond
  cases endpoint r with
  | error s => exact Flow.surely_done (.of_orders hw.sound rfl)
  | ok endpoint =>
    refine Flow.Surely.bind (surely_reply topic r hw endpoint) fun l res v h => ?_
    cases res with
    | ok response =>
      refine Flow.surely_done ?_
      rwa [List.append_nil]
    | error p =>
      refine Flow.surely_act (a := .count _ 1) fun _ u hu => Flow.surely_done ?_
      cases hu
      exact h.append (.of_idle h.sound rfl (Engine.idle_count ..))

end Http

/-! ### Steps -/

/-- What a step says. -/
theorem Step.spoken (e : Engine) (w : World) (s : Step) :
    Says (Deeds.said (s.trail e w)) w (s.run e w) := by
  cases s with
  | operate op => exact op.spoken e w
  | request r => exact (Flow.reaches_run .first (Http.respond e w.topic r) w).spoken

/-- **Every step is of good conduct.** -/
theorem World.Orderly.conduct_step (hw : w.Orderly e.menu) (s : Step) :
    Conduct e.menu (s.trail e w) w (s.run e w) := by
  cases s with
  | operate op => exact hw.conduct op
  | request r => exact Http.surely_respond w.topic r hw _ _ _ (Flow.reaches_run .first _ w)

/-- **All messages that were sent or are under way are true.** -/
theorem Engine.truthful_reached (e : Engine) (steps : List Step) :
    (e.reached steps).Truthful e.menu := by
  induction steps using List.reverseRecOn with
  | nil => exact fun x hx => absurd hx (Multiset.notMem_zero x)
  | append_singleton steps s ih =>
    rw [reached_append]
    exact ih.said ((orderly_reached e steps).conduct_step s) (s.spoken e _)

end Takeaway
