import Takeaway.Proofs.Coverage.Failure
import Takeaway.Proofs.Engine.Run

/-!
How the engine fails when nobody else is at work. Main statements: every job and every request from
outside ends cleanly, so that what is refused for its own fault was refused before anything was
done; and no fault is one of the engine itself.
-/

namespace Takeaway

open World (Orderly Steady)

variable {rank : World.Rank} {w w' : World}

/-! ### The kitchen -/

namespace Kitchen

theorem plain_cook (p : List (Item × Span)) : (cook p).Plain fun _ => True := by
  induction p with
  | nil => trivial
  | cons l r ih =>
    obtain ⟨i, s⟩ := l
    unfold cook
    split
    · refine Flow.Plain.bind (p := fun _ => True) (fun _ => trivial) fun _ _ => ?_
      exact Flow.Plain.bind (plain_addUnits i.name i.quantity) fun _ _ => ih
    · exact ih

theorem clean_prepare (menu : Menu) (scale : Double) (lines : List Item) :
    WorkEnds rank (prepare menu scale lines) w (Clean w) := by
  unfold prepare
  refine workEnds_bind_ofRefusal (fun p _ => workEnds_lift ?_) fun r _ =>
    clean_refused (Fault.category_ofRefusal r)
  exact ((plain_cook p).ends w).imp fun _ _ h => clean_ok h.2

end Kitchen

/-! ### The desk -/

/-- A fault with stored orders is one of the outside, or of what was asked for. -/
theorem Fault.ofOrderFault_cases (f : OrderFault) :
    (Fault.ofOrderFault f).IsOutside ∨ (Fault.ofOrderFault f).category = .validation := by
  cases f with
  | refused r => exact .inr (Fault.category_ofRefusal r)
  | outage o => exact .inl rfl

namespace Desk

theorem plainWork_ofStore {α : Type} {x : Flow (Except Outage α)}
    (hx : PlainWork (ExceptT.mk x) fun _ => True) :
    PlainWork (ofStore x) fun f => (Fault.ofOrderFault f).IsOutside :=
  plainWork_mapError hx fun _ _ => rfl

/-- An order whose lines are accepted is not refused. -/
theorem plainWork_place {menu : Menu} {items : List Item} (h : check menu items = .ok ())
    (customer : CustomerId) :
    PlainWork (place menu customer items) fun f => (Fault.ofOrderFault f).IsOutside := by
  unfold place
  rw [h]
  refine PlainWork.bind (plainWork_pure ()) fun _ => ?_
  refine PlainWork.bind (plainWork_ofStore plain_nextNumber) fun n => ?_
  refine PlainWork.bind (plainWork_ask trivial) fun time => ?_
  refine PlainWork.bind (plainWork_ofStore (plain_saveOrder _)) fun _ => ?_
  exact PlainWork.bind (plainWork_ask (by simp [Action.IsPlain])) fun _ => plainWork_pure _

theorem ends_get (hs : w.store.script = []) (n : OrderNumber) :
    WorkEnds rank (get n) w fun r w' => r = (w.store.get? n).mapError .outage ∧ w' = w := by
  refine (workAtOnce_mapError _ ((atOnce_fetchOrder hs n).imp ?_)).ends rank
  rintro _ w ⟨rfl, rfl⟩
  exact ⟨rfl, rfl⟩

/-- Looking an order up does nothing. -/
theorem ends_require (hs : w.store.script = []) (n : OrderNumber) :
    WorkEnds rank (require n) w fun _ w' => w' = w := by
  unfold require
  refine WorkEnds.bind (ends_get hs n) ?_ fun f w' h => h.2
  rintro o w ⟨-, rfl⟩
  cases o with
  | none => exact workEnds_throw rfl
  | some o => exact workEnds_pure rfl

end Desk

theorem WorkEnds.ofDesk {α : Type} {x : DeskWork α} {p : Except OrderFault α → World → Prop}
    (hx : WorkEnds rank x w p) :
    WorkEnds rank (Work.ofDesk x) w fun r w' => ∃ s, r = s.mapError Fault.ofOrderFault ∧ p s w' :=
  Flow.Ends.bind hx fun s _ hs => ⟨s, rfl, hs⟩

namespace Engine

variable (e : Engine)

/-! ### Requests from outside -/

/-- An order whose lines are accepted is placed, unless something outside does not answer. -/
theorem plainWork_place {items : List Item} (h : Desk.check e.menu items = .ok ())
    (customer : CustomerId) : PlainWork (e.place customer items) Fault.IsOutside :=
  PlainWork.bind (plainWork_mapError (Desk.plainWork_place h customer) fun _ hf => hf) fun _ =>
    plainWork_tell _ _ _

/-- An order whose lines are not accepted is refused before anything is done. -/
theorem ends_place_refused {items : List Item} {r : Refusal}
    (h : Desk.check e.menu items = .error r) (customer : CustomerId) :
    WorkEnds rank (e.place customer items) w fun res w' =>
      res = .error (Fault.ofRefusal r) ∧ w' = w := by
  unfold place Desk.place
  rw [h]
  exact ⟨rfl, rfl⟩

theorem clean_place (customer : CustomerId) (items : List Item) :
    WorkEnds rank (e.place customer items) w (Clean w) := by
  cases h : Desk.check e.menu items with
  | ok u => exact ((plainWork_place e h customer).ends w).imp fun _ _ h => Blameless.clean h
  | error r =>
    refine (ends_place_refused e h customer).imp ?_
    rintro _ w ⟨rfl, rfl⟩
    exact clean_refused (Fault.category_ofRefusal r)

theorem clean_collect (hs : w.store.script = []) (n : OrderNumber) :
    WorkEnds rank (e.collect n) w (Clean w) := by
  unfold collect
  refine WorkEnds.bind (Desk.ends_require hs n).ofDesk ?_ ?_
  · rintro o w ⟨s, -, rfl⟩
    split
    · exact clean_refused rfl
    · exact ((plainWork_tell _ _ _).ends w).imp fun _ _ h => Blameless.clean h
  · rintro f w ⟨s, hf, rfl⟩
    refine ⟨?_, Steady.refl w⟩
    rintro _ ⟨⟩
    cases s with
    | ok o => cases hf
    | error g =>
      cases hf
      exact (Fault.ofOrderFault_cases g).imp_right fun h => ⟨h, rfl⟩

theorem clean_addInventory (item : String) (q : Quantity) :
    WorkEnds rank (e.addInventory item q) w (Clean w) := by
  unfold addInventory
  refine workEnds_bind_ofRefusal (fun b _ => ?_) fun r _ =>
    clean_refused (Fault.category_ofRefusal r)
  dsimp only
  split
  · exact clean_refused rfl
  split
  · exact clean_refused rfl
  · refine Flow.Ends.bind_lift ((plain_addUnits item q).ends w) ?_
    rintro _ w₁ ⟨-, h₁⟩
    exact workEnds_lift (Flow.ends_ask (clean_ok h₁))

theorem clean_requestSweep : WorkEnds rank e.requestSweep w (Clean w) := by
  have hplain : PlainWork e.requestSweep Fault.IsOutside :=
    PlainWork.bind (plainWork_ask trivial) fun _ => plainWork_publish _ _
  exact (hplain.ends w).imp fun _ _ h => Blameless.clean h

/-! ### Jobs -/

theorem blameless_restockAll {c : Coverage} (d : Deadline) (hw : w.Orderly c.menu)
    (items : List String) : WorkEnds rank (restockAll c d items) w (Blameless w) := by
  induction items generalizing w with
  | nil => exact workEnds_pure (blameless_ok (Steady.refl w))
  | cons item r ih =>
    unfold restockAll
    refine Flow.Ends.bind_lift (Flow.Ends.and (Coverage.ends_restock d hw item)
      (Coverage.ends_restock_failed d hw item)) ?_
    rintro res w₁ ⟨⟨new, h₁, -⟩, hres⟩
    have hsteady : w.Steady w₁ := by
      rcases hres with ⟨-, h⟩ | ⟨-, rfl⟩
      · exact h
      · exact Steady.refl _
    have hnext := (ih h₁.orderly).imp fun _ _ h => Blameless.after h hsteady
    split
    · exact hnext
    · exact hnext
    · next f hne =>
      rcases hres with h | ⟨⟨⟩, -⟩
      · exact workEnds_throw ⟨by rintro _ ⟨⟩; exact h.1 f rfl, hsteady⟩
      · exact absurd rfl (hne _)

theorem clean_handOver {m : Menu} (hw : w.Orderly m) (n : OrderNumber) (d : Deadline) :
    WorkEnds rank (handOver n d) w (Clean w) := by
  unfold handOver
  refine WorkEnds.bind (Flow.Ends.and (Coverage.ends_load d hw.script n)
    (Coverage.clean_load d hw.script n)) ?_ ?_
  · rintro o w ⟨⟨rfl, -⟩, -⟩
    refine workEnds_bind_ofRefusal (fun new _ => ?_) fun r _ =>
      clean_refused (Fault.category_ofRefusal r)
    split
    · have htell : PlainWork (do
          Work.within d (Work.ofStore (saveOrder new))
          notify (.statusUpdated n new.status (← Flow.ask .clock))) Fault.IsOutside := by
        refine PlainWork.bind (plainWork_within (plain_saveOrder new) d) fun _ => ?_
        refine PlainWork.bind (plainWork_ask trivial) fun time => ?_
        exact plainWork_lift (plain_notify (Envelope.isNotice_statusUpdated _ _ time))
      exact (htell.ends w).imp fun _ _ h => Blameless.clean h
    · exact workEnds_pure (clean_ok (Steady.refl w))
  · exact fun f w' h => h.2.error

variable {e}

/-- **Every job ends cleanly.** -/
theorem clean_work (hw : w.Orderly e.menu) (j : Job) (d : Deadline) :
    WorkEnds rank (j.work e d) w (Clean w) := by
  have hdiscard : ∀ {α : Type} {x : Work α}, WorkEnds rank x w (Clean w) →
      WorkEnds rank (do let _ ← x) w (Clean w) := fun hx =>
    WorkEnds.bind hx (fun a w' h => workEnds_pure (clean_ok h.2)) fun f w' h => h.error
  cases j with
  | cover n => exact hdiscard (e.coverage.clean_coverNew d hw n)
  | restock lines =>
    exact (blameless_restockAll (c := e.coverage) d hw _).imp fun _ _ h => h.clean
  | sweep =>
    exact hdiscard ((e.coverage.blameless_sweep d hw).imp fun _ _ h => h.clean)
  | handOver n => exact clean_handOver hw n d
  | record s =>
    have hplain : PlainWork (Flow.count (.statusUpdates s) : Work Unit) Fault.IsOutside :=
      plainWork_ask (by simp [Action.IsPlain])
    exact (hplain.ends w).imp fun _ _ h => Blameless.clean h
  | prepare lines => exact Kitchen.clean_prepare _ _ _

end Engine

/-! ### Messages -/

namespace Envelope

variable {m : Envelope} {f : MessageFailure}

theorem isMalformed_of_required {name : String} (h : m.required name = .error f) :
    f.isMalformed = true := by
  unfold required at h
  split at h <;> cases h
  rfl

theorem isMalformed_of_event (h : m.event = .error f) : f.isMalformed = true := by
  unfold event tag at h
  cases ht : m.required eventHeader with
  | error g =>
    rw [ht] at h
    cases h
    exact isMalformed_of_required ht
  | ok t =>
    rw [ht] at h
    dsimp only [bind, Except.bind] at h
    split at h <;> cases h
    rfl

theorem isMalformed_of_orderNumber (h : m.orderNumber = .error f) : f.isMalformed = true := by
  unfold orderNumber at h
  cases ht : m.required orderHeader with
  | error g =>
    rw [ht] at h
    cases h
    exact isMalformed_of_required ht
  | ok t =>
    rw [ht] at h
    dsimp only [bind, Except.bind] at h
    cases hn : OrderNumber.read t <;> rw [hn] at h <;> cases h
    rfl

theorem isMalformed_of_decode {α : Type} {read : Json.Reader α} (h : m.decode read = .error f) :
    f.isMalformed = true := by
  unfold decode at h
  cases hd : Json.decodeBytes read m.payload <;> rw [hd] at h <;> cases h
  rfl

end Envelope

theorem Fault.category_ofMessage {f : MessageFailure} (h : f.isMalformed = true) :
    (Fault.ofMessage f).category = .validation := by
  unfold ofMessage
  rw [if_pos h]
  rfl

/-- A message that is turned down is counted as such, and it is to blame itself. -/
structure Rejection.Fair (x : Rejection) : Prop where
  series : x.series ≠ .takesRejected
  fault : ∀ f, x.result.fault = some f → f.category = .validation

theorem Job.fair_of_read {kind : String} {j : Except MessageFailure Job} {x : Rejection}
    (h : Job.read kind j = .error x) (hj : ∀ f, j = .error f → f.isMalformed = true) : x.Fair := by
  cases j with
  | ok i => cases h
  | error f =>
    cases h
    refine ⟨by simp, ?_⟩
    rintro _ ⟨⟩
    exact Fault.category_ofMessage (hj f rfl)

namespace Engine

variable {e : Engine} {m : Envelope}

/-- What a message is read for, step by step. -/
theorem isMalformed_of_bind {α β : Type} {x : Except MessageFailure α}
    {f : α → Except MessageFailure β} (hx : ∀ g, x = .error g → g.isMalformed = true)
    (hf : ∀ a g, f a = .error g → g.isMalformed = true) :
    ∀ g, x >>= f = .error g → g.isMalformed = true := by
  intro g h
  cases x with
  | error g' =>
    cases h
    exact hx g rfl
  | ok a => exact hf a g h

theorem fair_of_job {x : Rejection} (h : e.job m = .error x) : x.Fair := by
  have hnumber : ∀ g, m.orderNumber = .error g → g.isMalformed = true := fun _ =>
    Envelope.isMalformed_of_orderNumber
  have hlines : ∀ g, m.decode Item.linesReader = .error g → g.isMalformed = true := fun _ =>
    Envelope.isMalformed_of_decode
  have hnone : ∀ {α : Type} (a : α) (g : MessageFailure),
      (pure a : Except MessageFailure α) = .error g → g.isMalformed = true := by rintro _ _ _ ⟨⟩
  have hunrouted : ∀ {f : Fault}, f.category = .validation → (Rejection.unrouted f).Fair := by
    intro f hf
    refine ⟨by simp [Rejection.unrouted], ?_⟩
    rintro _ ⟨⟩
    exact hf
  unfold job at h
  rcases hev : m.event with f | event <;> rw [hev] at h
  · have hmalformed := Envelope.isMalformed_of_event hev
    cases f <;> cases h <;> first
      | exact hunrouted rfl
      | exact hunrouted (Fault.category_ofMessage hmalformed)
  cases event with
  | orderPlaced => exact Job.fair_of_read h (isMalformed_of_bind hnumber fun _ => hnone _)
  | itemAdded => exact Job.fair_of_read h (isMalformed_of_bind hlines fun _ => hnone _)
  | sweepRequested => cases h
  | orderCollected => exact Job.fair_of_read h (isMalformed_of_bind hnumber fun _ => hnone _)
  | statusUpdated =>
    refine Job.fair_of_read h (isMalformed_of_bind (fun _ => Envelope.isMalformed_of_decode) ?_)
    exact fun s => isMalformed_of_bind hnumber fun _ => hnone _
  | itemRequested =>
    dsimp only at h
    split at h
    · refine Job.fair_of_read h (isMalformed_of_bind hnumber fun _ => ?_)
      exact isMalformed_of_bind hlines fun _ => hnone _
    · cases h
      exact hunrouted rfl

/-- What a message comes to: all went well, or something outside did not answer, or the message is
to blame and nothing was done. -/
def Accounted (w : World) (r : CommandResult) (w' : World) : Prop :=
  (∀ f, r.fault = some f → f.IsOutside ∨ f.category = .validation ∧ w.Untouched w') ∧ w.Steady w'

theorem Accounted.count {r : CommandResult} (h : Accounted w r w') {s : Series}
    (hs : s ≠ .takesRejected) : Accounted w r (w'.count s 1) := by
  obtain ⟨hfault, hsteady⟩ := h
  refine ⟨fun f hf => ?_, hsteady.trans (World.steady_count hs w' 1)⟩
  exact (hfault f hf).imp_right fun h => ⟨h.1, h.2.trans (w'.untouched_count s 1)⟩

/-- **Whatever the message, nothing is done that it is to blame for.** -/
theorem accounted_response (hw : w.Orderly e.menu) (m : Envelope) :
    (e.response m).Ends rank w (Accounted w) := by
  unfold response
  cases hj : e.job m with
  | error x =>
    obtain ⟨hseries, hfault⟩ := fair_of_job hj
    refine Accounted.count ⟨fun f hf => .inr ⟨hfault f hf, ?_⟩, Steady.refl w⟩ hseries
    exact World.Untouched.refl w
  | ok j =>
    unfold Job.flow
    refine Flow.Ends.bind (p := fun _ w' => w' = w) (Flow.ends_ask rfl) ?_
    rintro d w rfl
    refine Flow.Ends.bind (clean_work hw j d) ?_
    rintro res w₁ ⟨hres, hsteady⟩
    have hdone : Accounted w ⟨j.kind, (Ending.finished res).fault?⟩ w₁ := by
      refine ⟨fun f hf => ?_, hsteady⟩
      cases res with
      | ok u => cases hf
      | error g =>
        cases hf
        refine (hres _ rfl).imp_right ?_
        rintro ⟨hg, rfl⟩
        exact ⟨hg, World.Untouched.refl _⟩
    exact (hdone.count (by simp)).count (by simp)

end Engine

end Takeaway
