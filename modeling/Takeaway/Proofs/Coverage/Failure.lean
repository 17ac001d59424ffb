import Takeaway.Proofs.Coverage.Run
import Takeaway.Proofs.Flow.Plain

/-!
How covering orders fails when nobody else is at work. Main statements: a pass over an order, the
handing out of an item and the sweep fail only when something outside does not answer; and covering
a new order fails besides when the order is not there, and then nothing was done.
-/

namespace Takeaway

open World (Orderly Steady)

variable {rank : World.Rank} {w w' w'' : World}

/-! ### Ends without blame -/

/-- An end for which nobody is to blame: the world is kept steady, and what failed did so since
something outside does not answer. -/
def Blameless {α : Type} (w : World) (r : Except Fault α) (w' : World) : Prop :=
  (∀ f, r = .error f → f.IsOutside) ∧ w.Steady w'

/-- A clean end: nobody is to blame, or what was asked for is, and then nothing was done. -/
def Clean {α : Type} (w : World) (r : Except Fault α) (w' : World) : Prop :=
  (∀ f, r = .error f → f.IsOutside ∨ f.category = .validation ∧ w' = w) ∧ w.Steady w'

section Ends

variable {α β : Type} {r : Except Fault α}

theorem blameless_ok {a : α} (h : w.Steady w') : Blameless w (.ok a) w' := ⟨by rintro _ ⟨⟩, h⟩

theorem Blameless.after (h : Blameless w' r w'') (hw : w.Steady w') : Blameless w r w'' :=
  ⟨h.1, hw.trans h.2⟩

theorem Blameless.clean (h : Blameless w r w') : Clean w r w' :=
  ⟨fun f hf => .inl (h.1 f hf), h.2⟩

theorem clean_ok {a : α} (h : w.Steady w') : Clean w (.ok a) w' := ⟨by rintro _ ⟨⟩, h⟩

/-- What goes wrong is passed on. -/
theorem Clean.error {f : Fault} (h : Clean w (.error f : Except Fault α) w') :
    Clean w (.error f : Except Fault β) w' := ⟨fun g hg => h.1 g (by cases hg; rfl), h.2⟩

/-- What is refused before anything was done ends cleanly. -/
theorem clean_refused {f : Fault} (hf : f.category = .validation) :
    Clean w (.error f : Except Fault α) w :=
  ⟨by rintro _ ⟨⟩; exact .inr ⟨hf, rfl⟩, Steady.refl w⟩

/-- One step after another, none of them to blame. -/
theorem WorkEnds.bind_blameless {x : Work α} {f : α → Work β} {p : Except Fault α → World → Prop}
    (hx : WorkEnds rank x w p) (hb : WorkEnds rank x w (Blameless w))
    (hf : ∀ a w', p (.ok a) w' → WorkEnds rank (f a) w' (Blameless w')) :
    WorkEnds rank (x >>= f) w (Blameless w) := by
  refine WorkEnds.bind (Flow.Ends.and hx hb) ?_ ?_
  · rintro a w' ⟨ha, -, hw⟩
    exact (hf a w' ha).imp fun r w'' h => h.after hw
  · rintro e w' ⟨-, he, hw⟩
    exact ⟨fun f hf => he f (by cases hf; rfl), hw⟩

end Ends

theorem Fault.category_ofRefusal (r : Refusal) : (Fault.ofRefusal r).category = .validation := by
  cases r <;> rfl

namespace Coverage

variable {c : Coverage} (d : Deadline)

/-! ### One order -/

theorem plainWork_requestAll (n : OrderNumber) (items : List Item) :
    PlainWork (c.requestAll d n items) Fault.IsOutside := by
  induction items with
  | nil => exact plainWork_pure _
  | cons i r ih => exact PlainWork.bind ((plainWork_request c.policy n i).within d) fun _ => ih

/-- What follows when an order was packed. -/
theorem plainWork_afterwards (o new : Order) (packed requests : List Item) :
    PlainWork (do
      if !packed.isEmpty then Work.within d (Work.ofStore (saveOrder new))
      let changed := new.status != o.status
      if changed then notify (.statusUpdated o.number new.status (← Flow.ask .clock))
      c.requestAll d o.number requests
      return (⟨o.number, packed, requests, new.status, changed⟩ : Outcome)) Fault.IsOutside := by
  have hrequests : ∀ changed, PlainWork (do
      c.requestAll d o.number requests
      return (⟨o.number, packed, requests, new.status, changed⟩ : Outcome)) Fault.IsOutside :=
    fun _ => PlainWork.bind (plainWork_requestAll d o.number requests) fun _ => plainWork_pure _
  have htell : PlainWork (do
      let changed := new.status != o.status
      if changed then notify (.statusUpdated o.number new.status (← Flow.ask .clock))
      c.requestAll d o.number requests
      return (⟨o.number, packed, requests, new.status, changed⟩ : Outcome)) Fault.IsOutside := by
    dsimp only
    split
    · refine PlainWork.bind (plainWork_ask trivial) fun time => ?_
      refine PlainWork.bind (plainWork_lift ?_) fun _ => hrequests _
      exact plain_notify (Envelope.isNotice_statusUpdated _ _ time)
    · exact hrequests _
  split
  · exact PlainWork.bind (plainWork_within (plain_saveOrder new) d) fun _ => htell
  · exact htell

/-- **A pass over an order fails only when something outside does not answer.** -/
theorem blameless_cover (hw : w.Orderly c.menu) {o : Order}
    (ho : w.orders.find? o.number = some o) {items : List String}
    (hitems : ∀ i ∈ items, o.requests i = true) :
    WorkEnds rank (c.cover d o items) w (Blameless w) := by
  unfold cover
  refine WorkEnds.bind (ends_fill c (hw.sound _ _ ho).1 hitems) ?_ (by rintro _ _ ⟨⟨⟩, -⟩)
  rintro _ _ ⟨⟨⟩, rfl⟩
  refine ((plainWork_afterwards d o _ _ _).ends _).imp fun r w' h => ?_
  exact Blameless.after h (World.steady_of_same rfl rfl)

/-- An order cannot be looked up when the store does not answer, or when it is not there. -/
theorem clean_load (hs : w.store.script = []) (n : OrderNumber) :
    WorkEnds rank (load d n) w (Clean w) := by
  have hplain : PlainWork (load d n) fun f => f.IsOutside ∨ f.category = .validation := by
    unfold load
    refine PlainWork.bind ((plainWork_within (plain_fetchOrder n) d).imp fun f => .inl) fun o => ?_
    cases o with
    | none => exact plainWork_throw (.inr rfl)
    | some o => exact plainWork_pure o
  refine (Flow.Ends.and (ends_load d hs n) (hplain.ends w)).imp ?_
  rintro r w' ⟨⟨rfl, -⟩, hf, hw⟩
  exact ⟨fun f h => (hf f h).imp_right fun h => ⟨h, rfl⟩, hw⟩

theorem clean_coverNew (hw : w.Orderly c.menu) (n : OrderNumber) :
    WorkEnds rank (c.coverNew d n) w (Clean w) := by
  unfold coverNew
  refine WorkEnds.bind (Flow.Ends.and (ends_load d hw.script n) (clean_load d hw.script n)) ?_ ?_
  · rintro o w ⟨⟨rfl, hload⟩, -⟩
    obtain ⟨-, ho⟩ := (hload o).1 rfl
    obtain ⟨-, rfl⟩ := hw.sound n o ho
    split
    · exact (blameless_cover d hw ho fun i hi => Order.requests_iff_mem_names.2 hi).imp
        fun _ _ h => h.clean
    · exact workEnds_pure (clean_ok (Steady.refl w))
  · exact fun f w' h => h.2.error

/-! ### Arrived items -/

theorem blameless_handOut (hw : w.Orderly c.menu) (ha : w.store.store.answers = true)
    (item : String) {orders : List Order}
    (hstored : ∀ o ∈ orders, ∃ o', w.orders.find? o.number = some o' ∧ o'.requests item = true) :
    WorkEnds rank (c.handOut d item orders) w (Blameless w) := by
  induction orders generalizing w with
  | nil => exact workEnds_pure (blameless_ok (Steady.refl w))
  | cons candidate r ih =>
    obtain ⟨⟨o₀, ho₀, hreq₀⟩, hrest⟩ := List.forall_mem_cons.1 hstored
    refine ends_handOut_cons d hw ?_ ?_ ?_ ?_
    · exact fun _ => blameless_ok (Steady.refl w)
    · intro f hno
      rw [hno ha o₀ ho₀] at hreq₀
      cases hreq₀
    · exact fun _ => ih hw ha hrest
    · intro o _ ho _ hreq _
      have hitems : ∀ i ∈ [item], o.requests i = true := fun i hi => by
        rw [List.mem_singleton.1 hi]
        exact hreq
      refine WorkEnds.bind_blameless (ends_cover d hw ha ho hitems)
        (blameless_cover d hw ho hitems) ?_
      rintro out w₁ ⟨new, hnew, -⟩
      have h₁ := pass_of_covered hw ho hnew
      -- no order is lost, and none asks for anything else than before
      have hrest₁ : ∀ o ∈ r, ∃ o', w₁.orders.find? o.number = some o' ∧
          o'.requests item = true := fun o ho => by
        obtain ⟨o', ho', hreq'⟩ := hrest o ho
        obtain ⟨o'', ho'', hx⟩ := h₁.served.forth _ o' ho'
        exact ⟨o'', ho'', by rw [hx.requests]; exact hreq'⟩
      have hnext := ih h₁.orderly (h₁.kept.answers.trans ha) hrest₁
      exact WorkEnds.bind_blameless hnext hnext fun outs w₂ _ =>
        workEnds_pure (blameless_ok (Steady.refl w₂))

/-- **Handing out an arrived item fails only when something outside does not answer**, or when the
item is not on the menu, and then nothing was done. -/
theorem ends_restock_failed (hw : w.Orderly c.menu) (item : String) :
    WorkEnds rank (c.restock d item) w fun r w' => Blameless w r w' ∨
      r = .error (.unknownItem item) ∧ w' = w := by
  unfold restock
  refine workEnds_bind_ofRefusal (fun b _ => ?_) fun f hb => ?_
  · cases b with
    | true => exact workEnds_pure (.inl (blameless_ok (Steady.refl w)))
    | false =>
      have hsearch := plainWork_within (plain_searchOrders (OrderFilter.waiting.requesting item)) d
      refine (WorkEnds.bind_blameless (ends_search d hw.toTidy _) (hsearch.ends w) ?_).imp
        fun r w' => .inl
      rintro os w ⟨rfl, hos⟩
      obtain ⟨ha, rfl⟩ := (hos os).1 rfl
      refine blameless_handOut d hw ha item fun o ho => ?_
      rw [List.mem_filter, hw.mem_values, OrderFilter.accepts_requesting, Bool.and_eq_true] at ho
      exact ⟨o, ho.1, ho.2.2⟩
  · obtain rfl := Menu.isInstant_error hb
    exact .inr ⟨rfl, rfl⟩

/-! ### All open orders -/

theorem blameless_coverEach (hw : w.Orderly c.menu) (ha : w.store.store.answers = true)
    {orders : List Order} (hstored : ∀ o ∈ orders, w.orders.find? o.number = some o)
    (hnodup : (orders.map fun o => o.number).Nodup) :
    (c.coverEach d orders).Ends rank w fun r w' =>
      (∀ f, r.2 = some f → f.IsOutside) ∧ w.Steady w' := by
  induction orders generalizing w with
  | nil => exact ⟨by rintro _ ⟨⟩, Steady.refl w⟩
  | cons o r ih =>
    obtain ⟨ho, hrest⟩ := List.forall_mem_cons.1 hstored
    obtain ⟨hnot, hnodup⟩ := List.nodup_cons.1 hnodup
    refine ends_coverEach_cons d (hw.sound _ _ ho).1 (fun _ => ih hw ha hrest hnodup)
      (fun hitems => Flow.Ends.and (ends_cover d hw ha ho hitems)
        (blameless_cover d hw ho hitems)) ?_
    rintro res w₁ ⟨⟨new, hnew, -⟩, hres, hsteady⟩
    have h₁ := pass_of_covered hw ho hnew
    refine (ih h₁.orderly (h₁.kept.answers.trans ha)
      (World.find?_of_covered _ hw ho hnew.orders hnot hrest) hnodup).imp ?_
    rintro rest w₂ ⟨hfault, h₂⟩
    refine ⟨fun g hg => ?_, hsteady.trans h₂⟩
    cases res with
    | ok outcome => exact hfault g hg
    | error f =>
      rcases Option.or_eq_some_iff.1 hg with hg | ⟨-, hg⟩
      · exact hfault g hg
      · cases hg
        exact hres _ rfl

/-- **A sweep fails only when something outside does not answer.** -/
theorem blameless_sweep (hw : w.Orderly c.menu) :
    WorkEnds rank (c.sweep d) w (Blameless w) := by
  have hsearch := plainWork_within (plain_searchOrders .waiting) d
  unfold sweep
  refine WorkEnds.bind_blameless (ends_search d hw.toTidy _) (hsearch.ends w) ?_
  rintro os w ⟨rfl, hos⟩
  obtain ⟨ha, rfl⟩ := (hos os).1 rfl
  have hstored : ∀ o ∈ w.orders.values.filter OrderFilter.waiting.accepts,
      w.orders.find? o.number = some o := fun o ho => hw.mem_values.1 (List.mem_filter.1 ho).1
  have hnodup : ((w.orders.values.filter OrderFilter.waiting.accepts).map fun o =>
      o.number).Nodup := hw.numbers_nodup.sublist (List.filter_sublist.map _)
  refine Flow.Ends.bind_lift (blameless_coverEach d hw ha hstored hnodup) ?_
  rintro ⟨outcomes, fault⟩ w₁ ⟨hfault, hsteady⟩
  cases fault with
  | none => exact workEnds_pure (blameless_ok hsteady)
  | some f => exact workEnds_throw ⟨by rintro _ ⟨⟩; exact hfault f rfl, hsteady⟩

end Coverage

end Takeaway
