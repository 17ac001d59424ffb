import Takeaway.Kitchen
import Takeaway.Proofs.Flow.Ends

/-!
How calls of the store and sending end when nobody else is at work. Main statements: without
disturbances a call of the store is over at once, and when sending works a message is sent at the
first attempt; neither is hurt by a deadline.
-/

namespace Takeaway

open World (Aside)

/-! ### What is over at once -/

namespace Flow

variable {α β : Type} {w : World}

/-- The flow, run from a world, does not wait, and ends with a value and a world of which a
statement holds. -/
structure AtOnce (x : Flow α) (w : World) (p : α → World → Prop) : Prop where
  prompt : x.Prompt w
  ends : ∀ rank, x.Ends rank w p

variable {p : α → World → Prop} {q : β → World → Prop}

theorem atOnce_done {a : α} (h : p a w) : (done a).AtOnce w p := ⟨trivial, fun _ => h⟩

theorem atOnce_ask {a : Action} {p : a.Answer → World → Prop}
    (h : p (w.perform a).1 (w.perform a).2) : (ask a).AtOnce w p := ⟨trivial, fun _ => h⟩

theorem AtOnce.imp {x : Flow α} {p' : α → World → Prop} (h : x.AtOnce w p)
    (hp : ∀ a w', p a w' → p' a w') : x.AtOnce w p' :=
  ⟨h.prompt, fun rank => (h.ends rank).imp hp⟩

theorem Prompt.bind {x : Flow α} {f : α → Flow β} (hx : x.Prompt w)
    (hf : x.Ends .first w fun a w' => (f a).Prompt w') : (x.bind f).Prompt w := by
  induction x generalizing w with
  | done a => exact hf
  | act a next ih => exact ih _ hx hf
  | wait wt limit next ih =>
    cases wt with
    | pause s =>
      obtain ⟨hs, hnext⟩ := hx
      refine ⟨hs, ih true hnext ?_⟩
      unfold Ends at hf
      rwa [run_wait, await_of_ticks hs] at hf
    | forever => cases hx
    | slot => cases hx

theorem AtOnce.bind {x : Flow α} {f : α → Flow β} (hx : x.AtOnce w p)
    (hf : ∀ a w', p a w' → (f a).AtOnce w' q) : (x.bind f).AtOnce w q :=
  ⟨hx.prompt.bind ((hx.ends .first).imp fun a w' ha => (hf a w' ha).prompt),
    fun rank => (hx.ends rank).bind fun a w' ha => (hf a w' ha).ends rank⟩

theorem atOnce_pause {s : Span} (hs : s.ticks = 0) :
    (pause s).AtOnce w fun _ w' => w' = w := by
  refine ⟨⟨hs, trivial⟩, fun rank => ?_⟩
  unfold Ends pause
  rw [run_wait, await_of_ticks hs]
  rfl

end Flow

section Work

variable {ε α β : Type} {w : World}

/-- Work that does not wait. -/
def WorkAtOnce (x : ExceptT ε Flow α) (w : World) (p : Except ε α → World → Prop) : Prop :=
  Flow.AtOnce x.run w p

variable {p : Except ε α → World → Prop} {q : Except ε β → World → Prop}

theorem workAtOnce_pure {a : α} (h : p (.ok a) w) :
    WorkAtOnce (pure a : ExceptT ε Flow α) w p := Flow.atOnce_done h

theorem WorkAtOnce.bind {x : ExceptT ε Flow α} {f : α → ExceptT ε Flow β}
    (hx : WorkAtOnce x w p) (hok : ∀ a w', p (.ok a) w' → WorkAtOnce (f a) w' q)
    (herr : ∀ e w', p (.error e) w' → q (.error e) w') : WorkAtOnce (x >>= f) w q := by
  refine Flow.AtOnce.bind hx fun r w' hr => ?_
  cases r with
  | ok a => exact hok a w' hr
  | error e => exact Flow.atOnce_done (herr e w' hr)

theorem workAtOnce_lift {x : Flow α} (h : x.AtOnce w fun a w' => p (.ok a) w') :
    WorkAtOnce (ExceptT.lift x : ExceptT ε Flow α) w p :=
  Flow.AtOnce.bind h fun _ _ ha => Flow.atOnce_done ha

theorem workAtOnce_mapError {ε' : Type} {x : Flow (Except ε' α)} (f : ε' → ε)
    (h : x.AtOnce w fun r w' => p (r.mapError f) w') :
    WorkAtOnce (ExceptT.mk do return (← x).mapError f : ExceptT ε Flow α) w p :=
  Flow.AtOnce.bind h fun _ _ ha => Flow.atOnce_done ha

/-- What is over at once ends as well under a deadline. -/
theorem WorkAtOnce.within {rank : World.Rank} {x : Work α} {p : Except Fault α → World → Prop}
    (h : WorkAtOnce x w p) (d : Deadline) : WorkEnds rank (Work.within d x) w p :=
  WorkEnds.within (h.ends rank) h.prompt d

end Work

/-! ### Calls of the store -/

section Store

variable {w : World} (hs : w.store.script = [])
include hs

theorem atOnce_lagOf (c : Store.Call) : (lagOf c).AtOnce w fun _ w' => w' = w := by
  have hlag : (w.store.lag c).ticks = 0 := by
    rw [ScriptedStore.lag_of_script hs]
    rfl
  refine Flow.AtOnce.bind (p := fun s w' => s = w.store.lag c ∧ w' = w)
    (Flow.atOnce_ask ⟨rfl, rfl⟩) ?_
  rintro _ w ⟨rfl, rfl⟩
  exact Flow.atOnce_pause hlag

theorem atOnce_fetchOrder (n : OrderNumber) :
    (fetchOrder n).AtOnce w fun r w' => r = w.store.get? n ∧ w' = w := by
  refine Flow.AtOnce.bind (atOnce_lagOf hs _) ?_
  rintro _ w rfl
  exact Flow.atOnce_ask ⟨rfl, rfl⟩

theorem atOnce_searchOrders (f : OrderFilter) :
    (searchOrders f).AtOnce w fun r w' => r = w.store.find f ∧ w' = w := by
  refine Flow.AtOnce.bind (atOnce_lagOf hs _) ?_
  rintro _ w rfl
  exact Flow.atOnce_ask ⟨rfl, rfl⟩

theorem atOnce_nextNumber : nextNumber.AtOnce w fun r w' =>
    (r, w') = w.perform .nextNumber := by
  refine Flow.AtOnce.bind (atOnce_lagOf hs _) ?_
  rintro _ w rfl
  exact Flow.atOnce_ask rfl

theorem atOnce_saveOrder (o : Order) : (saveOrder o).AtOnce w fun r w' =>
    (r, w') = w.perform (.save o) := by
  refine Flow.AtOnce.bind (atOnce_lagOf hs _) ?_
  rintro _ w rfl
  exact Flow.atOnce_ask rfl

theorem atOnce_nextNumber_given (ha : w.store.store.answers = true) :
    nextNumber.AtOnce w fun r w' => r = .ok ⟨w.store.store.last + 1⟩ ∧ w' = w.numberGiven := by
  refine (atOnce_nextNumber hs).imp fun r w' hr => ?_
  rw [World.perform_nextNumber hs ha] at hr
  exact Prod.mk.inj hr

theorem atOnce_saveOrder_written (ha : w.store.store.answers = true) (o : Order) :
    (saveOrder o).AtOnce w fun r w' => r = .ok () ∧ w' = w.written o := by
  refine (atOnce_saveOrder hs o).imp fun r w' hr => ?_
  rw [World.perform_save hs ha] at hr
  exact Prod.mk.inj hr

/-- An order is written in time. -/
theorem ends_saveOrder_written {rank : World.Rank} (ha : w.store.store.answers = true) (o : Order)
    (d : Deadline) : WorkEnds rank (Work.within d (Work.ofStore (saveOrder o))) w fun r w' =>
      r = .ok () ∧ w' = w.written o := by
  refine WorkAtOnce.within (workAtOnce_mapError _ ((atOnce_saveOrder_written hs ha o).imp ?_)) d
  rintro _ _ ⟨rfl, rfl⟩
  exact ⟨rfl, rfl⟩

end Store

/-! ### Sending -/

section Sending

variable {w : World} (hw : w.Flowing)
include hw

/-- The first attempt to send succeeds. -/
theorem atOnce_publish_sent (p : RetryPolicy) (e : Envelope) :
    (publish p e).AtOnce w fun r w' =>
      r = .ok () ∧ w' = { w with broker := w.broker.deliver ⟨w.topic, e⟩ } := by
  have hsend : (Flow.ask (.send e)).AtOnce w fun r w' =>
      r = .ok () ∧ w' = { w with broker := w.broker.deliver ⟨w.topic, e⟩ } := by
    refine Flow.atOnce_ask ?_
    have heq := World.send_of_flowing hw e
    exact ⟨congrArg Prod.fst heq, congrArg Prod.snd heq⟩
  unfold publish
  cases p.limit - 1 <;> refine hsend.bind ?_ <;> rintro _ w' ⟨rfl, rfl⟩ <;>
    exact Flow.atOnce_done ⟨rfl, rfl⟩

theorem atOnce_publish (p : RetryPolicy) (e : Envelope) :
    (publish p e).AtOnce w fun r w' => r = .ok () ∧ Aside {e} w w' := by
  refine (atOnce_publish_sent hw p e).imp ?_
  rintro _ _ ⟨rfl, rfl⟩
  have haside := World.aside_send w e
  rw [World.send_of_flowing hw e] at haside
  exact ⟨rfl, haside⟩

theorem atOnce_request (p : RetryPolicy) (n : OrderNumber) (i : Item) :
    WorkAtOnce (Kitchen.request p n i) w fun r w' => (∃ k, r = .ok k) ∧
      ∃ key time, Aside {.itemRequested n i key time} w w' := by
  unfold Kitchen.request
  refine WorkAtOnce.bind (p := fun r w' => (∃ k, r = .ok k) ∧ Aside 0 w w')
    (workAtOnce_lift (Flow.atOnce_ask ⟨⟨_, rfl⟩, World.aside_of_same rfl rfl rfl rfl⟩)) ?_
    (by rintro _ _ ⟨⟨k, ⟨⟩⟩, -⟩)
  rintro key w₁ ⟨-, h₁⟩
  refine WorkAtOnce.bind (p := fun r w' => (∃ k, r = .ok k) ∧ w' = w₁)
    (workAtOnce_lift (Flow.atOnce_ask ⟨⟨_, rfl⟩, rfl⟩)) ?_ (by rintro _ _ ⟨⟨k, ⟨⟩⟩, -⟩)
  rintro time w₁ ⟨-, rfl⟩
  have hpublish := atOnce_publish (h₁.flowing hw) p (.itemRequested n i key time)
  refine WorkAtOnce.bind (p := fun r w' => r = .ok () ∧ Aside {.itemRequested n i key time} w₁ w')
    (workAtOnce_mapError _ (hpublish.imp ?_)) ?_ (by rintro _ _ ⟨⟨⟩, -⟩)
  · rintro _ w' ⟨rfl, ha⟩
    exact ⟨rfl, ha⟩
  rintro _ w₂ ⟨-, h₂⟩
  refine WorkAtOnce.bind (p := fun r w' => r = .ok () ∧ Aside 0 w₂ w')
    (workAtOnce_lift (Flow.atOnce_ask ⟨rfl, World.aside_count w₂ _ _⟩)) ?_
    (by rintro _ _ ⟨⟨⟩, -⟩)
  rintro _ w₃ ⟨-, h₃⟩
  exact workAtOnce_pure ⟨⟨_, rfl⟩, key, time, (h₁.zero_trans h₂).trans_zero h₃⟩

end Sending

/-- A notice is under way as soon as there is room for it. -/
theorem ends_notify {rank : World.Rank} {w : World} (e : Envelope) :
    (notify e).Ends rank w fun _ w' => Aside {e} w w' := by
  unfold notify Flow.Ends
  rw [Flow.run_wait]
  exact (w.aside_await rank .slot none).zero_trans (World.aside_note _ e)

end Takeaway
