import Takeaway.Proofs.Coverage.InTurn
import Takeaway.Proofs.Engine.Failure
import Takeaway.Proofs.History
import Takeaway.Proofs.Order.Climb

/-!
Arrivals of several items, deed by deed. Main statements: once all of them were handed out, each of
them is used up or missed by nobody, and to hand them out again is to do nothing; and as long as
sending works, each item is handed out as if it were the only one.
-/

namespace Takeaway

open World (Aside Pass Orderly Spent)

variable {rank : World.Rank} {w w₁ w' : World} {item : String}

/-! ### Handling a message -/

namespace Engine

variable {e : Engine} {m : Envelope} {p : List Deed → Except Fault Unit → World → Prop}

/-- Around the work of a job nothing is written or said, and nothing but counts and the clock is
touched. -/
theorem does_flow {j : Job} (h : ∀ d, WorkDoes rank (j.work e d) w p) :
    (j.flow e).Does rank w fun l r w' => ∃ l' res w₁, p l' res w₁ ∧
      Deeds.Tally (Deeds.saved l') (Deeds.noted l') (Deeds.sent l') l ∧ w₁.Untouched w' ∧
      r = ⟨j.kind, (Ending.finished res).fault?⟩ := by
  unfold Job.flow
  refine Flow.Does.bind (p := fun l _ w' => Deeds.Still l ∧ w' = w)
    (Flow.does_ask ⟨⟨rfl, rfl, rfl⟩, rfl⟩) ?_
  rintro l₁ d w ⟨h₁, rfl⟩
  refine Flow.Does.bind (h d) ?_
  intro l₂ res w₁ hres
  refine Flow.Does.bind (p := fun l _ w' => Deeds.Still l ∧ w₁.Untouched w')
    (Flow.does_ask ⟨⟨rfl, rfl, rfl⟩, w₁.untouched_count _ _⟩) ?_
  rintro l₃ _ w₂ ⟨h₃, hw₂⟩
  refine Flow.Does.bind (p := fun l _ w' => Deeds.Still l ∧ w₁.Untouched w')
    (Flow.does_ask ⟨⟨rfl, rfl, rfl⟩, hw₂.trans (w₂.untouched_count _ _)⟩) ?_
  rintro l₄ _ w₃ ⟨h₄, hw₃⟩
  have hwork : Deeds.Tally (Deeds.saved l₂) (Deeds.noted l₂) (Deeds.sent l₂) l₂ := ⟨rfl, rfl, rfl⟩
  refine Flow.does_done ⟨l₂, res, w₁, hres, ?_, hw₃, rfl⟩
  exact h₁.still_append (hwork.append_still (h₃.append (h₄.append Deeds.still_nil)))

/-- What a job does and comes to is what handling its message does and comes to. -/
theorem does_of_job {j : Job} (hj : e.job m = .ok j)
    (h : ∀ d, WorkDoes .inTurn (j.work e d) w p) :
    ∃ l res w₁, p l res w₁ ∧ Deeds.Tally (Deeds.saved l) (Deeds.noted l) (Deeds.sent l)
        ((Operation.handle m).trail e w) ∧
      w₁.Untouched (e.handled m w) ∧
        (e.handle m w).1 = [⟨j.kind, (Ending.finished res).fault?⟩] := by
  have hresponse : e.response m = j.flow e := by
    unfold response
    rw [hj]
  have hflow : (j.flow e).Does .inTurn w _ := does_flow h
  rw [← hresponse] at hflow
  obtain ⟨l, res, w₁, hres, htally, huntouched, hresult⟩ := hflow
  refine ⟨l, res, w₁, hres, ?_, ?_, ?_⟩
  · rw [Operation.trail_handle]
    exact htally
  · unfold handled
    rw [handle_eq, Flow.runEach_one]
    exact huntouched.trans ⟨rfl, rfl, rfl, rfl⟩
  · rw [handle_eq, Flow.runEach_one, hresult]

end Engine

/-! ### Items that are used up -/

namespace World

variable {m : Menu} {new : Multiset Envelope}

/-- Once an item was handed out, none of it is left or nobody misses any. -/
theorem spent_of_handsOut {l : List Deed} (hw : w.Orderly m) (hitem : m.isInstant item = .ok false)
    (h : Coverage.HandsOut item w l w') (hp : Pass m new w w') : w'.Spent item := by
  have hlost := h.lost.onHand item
  rw [if_pos rfl] at hlost
  have hshort := hp.short_add_onHand hw hitem
  unfold Spent World.onHand at *
  omega

/-- Serving orders does not change that. -/
theorem Spent.pass (h : w.Spent item) (hw : w.Orderly m) (hitem : m.isInstant item = .ok false)
    (hp : Pass m new w w') : w'.Spent item := by
  have hstock := hp.onHand_le hitem
  have hshort := hp.short_le hw item
  unfold Spent at *
  omega

end World

namespace Coverage

variable {c : Coverage} (d : Deadline)

/-- While the store does not answer, an item that is kept in stock cannot be handed out. -/
theorem ends_restock_off (hw : w.Orderly c.menu) (hoff : w.store.store.answers = false)
    (hitem : c.menu.isInstant item = .ok false) :
    WorkEnds rank (c.restock d item) w fun r _ => ∃ f, r = .error f ∧ f.IsOutside := by
  unfold restock
  rw [hitem]
  refine workEnds_bind_ofRefusal (fun b hb => ?_) (by rintro _ ⟨⟩)
  cases hb
  have hsearch := plainWork_within (plain_searchOrders (OrderFilter.waiting.requesting item)) d
  refine WorkEnds.bind ((ends_search d hw.toTidy _).and (hsearch.ends w)) ?_ ?_
  · rintro os w ⟨⟨rfl, hos⟩, -⟩
    obtain ⟨ha, -⟩ := (hos os).1 rfl
    rw [hoff] at ha
    cases ha
  · rintro f w' ⟨-, hf, -⟩
    exact ⟨f, rfl, hf f rfl⟩

/-- Once it was handed out an item is used up, or missed by nobody. -/
theorem ends_restock_spent (hw : w.Orderly c.menu) (item : String) :
    WorkEnds rank (c.restock d item) w fun r w' => ∃ new, Pass c.menu new w w' ∧
      (c.menu.isInstant item = .ok false → (∃ f, r = .error f ∧ f.IsOutside) ∨
        w'.store.store.answers = true ∧ w'.Spent item) := by
  have hpass : WorkEnds rank (c.restock d item) w _ := ends_restock d hw item
  by_cases hitem : c.menu.isInstant item = .ok false
  · by_cases ha : w.store.store.answers = true
    · have hdone : WorkDoes rank (c.restock d item) w fun _ _ w' => ∃ l, HandsOut item w l w' :=
        (does_restock d hw ha hitem).imp fun l _ _ h => ⟨l, h.1⟩
      refine (hpass.and hdone.ends).imp ?_
      rintro r w' ⟨⟨new, h, -⟩, l, hl⟩
      refine ⟨new, h, fun _ => .inr ⟨h.kept.answers.trans ha, ?_⟩⟩
      exact World.spent_of_handsOut hw hitem hl h
    · have hoff : WorkEnds rank (c.restock d item) w _ :=
        ends_restock_off d hw (Bool.eq_false_iff.2 ha) hitem
      refine (hpass.and hoff).imp ?_
      rintro r w' ⟨⟨new, h, -⟩, hr⟩
      exact ⟨new, h, fun _ => .inl hr⟩
  · refine hpass.imp ?_
    rintro r w' ⟨new, h, -⟩
    exact ⟨new, h, fun h => absurd h hitem⟩

/-- An item that is used up, or missed by nobody, or not kept in stock at all is not handed out. -/
theorem does_restock_idle (hw : w.Orderly c.menu)
    (h : c.menu.isInstant item = .ok false → w.store.store.answers = true ∧ w.Spent item) :
    WorkDoes rank (c.restock d item) w fun l r w' => Deeds.Still l ∧ w' = w ∧
      ((∃ outs, r = .ok outs) ∨ r = .error (.unknownItem item)) := by
  cases hitem : c.menu.isInstant item with
  | error f =>
    obtain rfl := Menu.isInstant_error hitem
    unfold restock
    rw [hitem]
    exact workDoes_throw ⟨Deeds.still_nil, rfl, .inr rfl⟩
  | ok b =>
    cases b with
    | true =>
      unfold restock
      rw [hitem]
      exact workDoes_pure ⟨Deeds.still_nil, rfl, .inl ⟨_, rfl⟩⟩
    | false =>
      obtain ⟨ha, hspent⟩ := h hitem
      have hcuts : w.orders.keys.flatMap (w.cuts item) = [] :=
        hspent.flatMap_eq_nil fun _ => World.cuts_of_zero
      refine (does_restock d hw ha hitem).imp ?_
      rintro l r w' ⟨hdone, hsettled⟩
      refine ⟨⟨?_, ?_, ?_⟩, hdone.idle hspent, .inl (hsettled.resolve_right fun hr => hr.2 hcuts)⟩
      · exact hdone.saved.trans (hspent.flatMap_eq_nil fun _ => World.saves_of_zero)
      · have htold := hdone.told
        rw [hspent.flatMap_eq_nil fun _ => World.news_of_zero] at htold
        exact List.forall₂_nil_left_iff.1 htold
      · have htried := hdone.tried
        rw [hcuts] at htried
        exact htried.eq_nil

end Coverage

namespace Engine

variable {c : Coverage} (d : Deadline)

/-- One item after the other, as long as each can be handed out or is not on the menu. -/
theorem does_restockAll_cons {r : List String} {q : List Deed → Except Fault Unit → World → Prop}
    (h : WorkDoes rank (c.restock d item) w fun l res w₁ =>
      ((∃ outs, res = .ok outs) ∨ res = .error (.unknownItem item)) ∧
        WorkDoes rank (restockAll c d r) w₁ fun l' => q (l ++ l')) :
    WorkDoes rank (restockAll c d (item :: r)) w q := by
  unfold restockAll
  refine Flow.Does.bind_lift h ?_
  rintro l res w₁ ⟨⟨outs, rfl⟩ | rfl, hrest⟩
  · exact hrest
  · exact hrest

/-- **Items that are all used up, or missed by nobody, are not handed out again.** -/
theorem does_restockAll_idle (hw : w.Orderly c.menu) {items : List String}
    (h : ∀ i ∈ items, c.menu.isInstant i = .ok false →
      w.store.store.answers = true ∧ w.Spent i) :
    WorkDoes rank (restockAll c d items) w fun l r w' =>
      Deeds.Still l ∧ r = .ok () ∧ w' = w := by
  induction items with
  | nil => exact workDoes_pure ⟨Deeds.still_nil, rfl, rfl⟩
  | cons item r ih =>
    obtain ⟨hitem, hr⟩ := List.forall_mem_cons.1 h
    refine does_restockAll_cons d ((Coverage.does_restock_idle d hw hitem).imp ?_)
    rintro l res _ ⟨hl, rfl, hres⟩
    refine ⟨hres, (ih hr).imp ?_⟩
    rintro l' r' w' ⟨hl', hok, hw'⟩
    exact ⟨hl.append hl', hok, hw'⟩

/-- **When items could be handed out, each of them is used up or missed by nobody.** -/
theorem ends_restockAll_spent (hw : w.Orderly c.menu) (items : List String) :
    WorkEnds rank (restockAll c d items) w fun r w' => ∃ new, Pass c.menu new w w' ∧
      (r = .ok () → ∀ i ∈ items, c.menu.isInstant i = .ok false →
        w'.store.store.answers = true ∧ w'.Spent i) := by
  induction items generalizing w with
  | nil => exact workEnds_pure ⟨0, Pass.of_aside hw (Aside.refl w), by simp⟩
  | cons item r ih =>
    unfold restockAll
    refine Flow.Ends.bind_lift (Coverage.ends_restock_spent d hw item) ?_
    rintro res w₁ ⟨new, h₁, hspent⟩
    have hnext : (∀ f, res = .error f → ¬ f.IsOutside) → WorkEnds rank (restockAll c d r) w₁
        fun r' w' => ∃ new, Pass c.menu new w w' ∧ (r' = .ok () → ∀ i ∈ item :: r,
          c.menu.isInstant i = .ok false → w'.store.store.answers = true ∧ w'.Spent i) := by
      intro hres
      refine (ih h₁.orderly).imp ?_
      rintro r' w₂ ⟨new₂, h₂, hrest⟩
      refine ⟨_, h₁.trans h₂, fun hok => List.forall_mem_cons.2 ⟨fun hitem => ?_, hrest hok⟩⟩
      rcases hspent hitem with ⟨f, hf, houtside⟩ | ⟨ha, hs⟩
      · exact absurd houtside (hres f hf)
      · exact ⟨h₂.kept.answers.trans ha, hs.pass h₁.orderly hitem h₂⟩
    split
    · exact hnext (by rintro _ ⟨⟩)
    · refine hnext ?_
      rintro _ ⟨⟩ houtside
      cases houtside
    · exact workEnds_throw ⟨new, h₁, by rintro ⟨⟩⟩

end Engine

end Takeaway
