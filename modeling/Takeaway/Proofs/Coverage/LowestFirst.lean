import Takeaway.Proofs.Engine.Run

/-!
Who is served when there is not enough for all. Main statements: units that arrived go to the orders
with the lowest numbers, so that nobody gets any while an order with a lower number misses some; and
to cover a new order touches no other order, and asks the kitchen for what the new one still misses.
-/

namespace Takeaway

open World (Aside Pass Orderly Served)

variable {rank : World.Rank} {w w' w'' : World} {m : Menu}

namespace World

/-- Orders were served the lowest number first: where one of them was given units of an item, none
with a lower number misses any. -/
def LowestFirst (w w' : World) : Prop :=
  ∀ i n, w'.shortOf n i < w.shortOf n i → ∀ k < n, w'.shortOf k i = 0

theorem lowestFirst_of_orders (h : w'.orders = w.orders) : w.LowestFirst w' := by
  intro i n hlt
  unfold shortOf at hlt
  rw [h] at hlt
  exact absurd hlt (lt_irrefl _)

protected theorem LowestFirst.trans (h : w.LowestFirst w') (h' : w'.LowestFirst w'')
    (hs : Served m w' w'') : w.LowestFirst w'' := by
  intro i n hlt k hk
  by_cases hfirst : w'.shortOf n i < w.shortOf n i
  · have hzero := h i n hfirst k hk
    have hle := hs.shortOf_le k i
    omega
  · exact h' i n (by omega) k hk

theorem Orderly.numbers_ascending (h : w.Orderly m) :
    (w.orders.values.map fun o => o.number).Pairwise (· < ·) :=
  Index.values_ascending fun n o ho => (h.sound n o ho).2

/-- A pass for one item changes nothing about the others. -/
theorem shortOf_covered_one (hw : w.Orderly m) {o : Order} (ho : w.orders.find? o.number = some o)
    {item i : String} {n : OrderNumber} (h : n ≠ o.number ∨ i ≠ item) :
    (w.covered m [item] o).shortOf n i = w.shortOf n i := by
  by_cases hn : o.number = n
  · subst hn
    have hne : i ∉ [item] := by simpa using h.resolve_left (fun h => h rfl)
    have hsound := (hw.sound _ _ ho).1
    have hitems := (Coverage.filled_follows [item] hsound w.stock).items
    obtain ⟨hpacked, -⟩ := Coverage.filled_other hsound w.stock hne
    rw [shortOf_covered _ hw ho, shortOf_eq ho]
    unfold Order.short Order.requestedOf
    rw [hpacked, hitems]
  · unfold shortOf
    rw [find?_covered_of_ne _ hw ho hn]

theorem lowestFirst_covered (hw : w.Orderly m) {o : Order} (ho : w.orders.find? o.number = some o)
    {item : String} (hlower : ∀ k < o.number, w.shortOf k item = 0) :
    w.LowestFirst (w.covered m [item] o) := by
  intro i n hlt k hk
  by_cases hother : n ≠ o.number ∨ i ≠ item
  · rw [shortOf_covered_one hw ho hother] at hlt
    exact absurd hlt (lt_irrefl _)
  · obtain ⟨rfl, rfl⟩ : n = o.number ∧ i = item := by
      simpa only [not_or, not_not] using hother
    have hne : k ≠ o.number := fun h => absurd hk (h ▸ Std.Irrefl.irrefl (r := (· < ·)) _)
    rw [shortOf_covered_one hw ho (.inl hne)]
    exact hlower k hk

end World

namespace Coverage

variable {c : Coverage} (d : Deadline)

/-! ### Arrivals -/

/-- Orders that miss an item are candidates, as long as there are units. -/
def Candidates (w : World) (item : String) (orders : List Order) : Prop :=
  w.onHand item = 0 ∨ ∀ n, 0 < w.shortOf n item → ∃ o ∈ orders, o.number = n

theorem Candidates.tail {item : String} {candidate : Order} {orders : List Order}
    (h : Candidates w item (candidate :: orders)) (hstock : w'.onHand item ≤ w.onHand item)
    (hshort : ∀ n, w'.shortOf n item ≤ w.shortOf n item)
    (hdone : w'.onHand item = 0 ∨ w'.shortOf candidate.number item = 0) :
    Candidates w' item orders := by
  rcases h with h0 | hall
  · exact .inl (by omega)
  refine hdone.imp_right fun hdone n hn => ?_
  have hle := hshort n
  obtain ⟨o, ho, rfl⟩ := hall n (by omega)
  rcases List.mem_cons.1 ho with rfl | ho
  · omega
  · exact ⟨o, ho, rfl⟩

/-- As long as there are units, nobody before the next candidate misses any. -/
theorem Candidates.lower {item : String} {candidate : Order} {orders : List Order}
    (h : Candidates w item (candidate :: orders))
    (hleast : ∀ n ∈ orders.map fun o => o.number, candidate.number < n)
    (hstock : w.onHand item ≠ 0) : ∀ k < candidate.number, w.shortOf k item = 0 := by
  intro k hk
  by_contra hne
  obtain ⟨x, hx, rfl⟩ := h.resolve_left hstock k (Nat.pos_of_ne_zero hne)
  rcases List.mem_cons.1 hx with rfl | hx
  · exact absurd hk (Std.Irrefl.irrefl (r := (· < ·)) _)
  · have hgreater := hleast _ (List.mem_map.2 ⟨x, hx, rfl⟩)
    exact absurd (Trans.trans hk hgreater : x.number < x.number)
      (Std.Irrefl.irrefl (r := (· < ·)) _)

theorem ends_handOut_lowestFirst (hw : w.Orderly c.menu) {item : String}
    (hitem : c.menu.isInstant item = .ok false) {orders : List Order}
    (hascending : (orders.map fun o => o.number).Pairwise (· < ·))
    (hall : Candidates w item orders) :
    WorkEnds rank (c.handOut d item orders) w fun _ w' =>
      Served c.menu w w' ∧ w.LowestFirst w' := by
  have hrefl : ∀ w : World, Served c.menu w w ∧ w.LowestFirst w := fun w =>
    ⟨Served.of_same rfl rfl, World.lowestFirst_of_orders rfl⟩
  induction orders generalizing w with
  | nil => exact workEnds_pure (hrefl w)
  | cons candidate r ih =>
    obtain ⟨hleast, hascending⟩ := List.pairwise_cons.1 hascending
    refine ends_handOut_cons d hw (fun _ => hrefl w) (fun _ _ => hrefl w) ?_ ?_
    · exact fun hnone => ih hw hascending (hall.tail le_rfl (fun _ => le_rfl) (.inr hnone))
    intro o ha ho hnumber hreq hstock
    have hlower : ∀ k < o.number, w.shortOf k item = 0 := hnumber ▸ hall.lower hleast hstock
    have hone := covered_one hw ho hitem
    rw [hnumber] at hone
    have hfirst : ∀ {new w₁}, Aside new (w.covered c.menu [item] o) w₁ →
        Served c.menu w w₁ ∧ w.LowestFirst w₁ := by
      intro new w₁ hnew
      refine ⟨(pass_of_covered hw ho hnew).served, fun i n hlt k hk => ?_⟩
      rw [hnew.shortOf] at hlt ⊢
      exact World.lowestFirst_covered hw ho hlower i n hlt k hk
    refine WorkEnds.bind (ends_cover d hw ha ho fun i hi => ?_) ?_ ?_
    · rw [List.mem_singleton.1 hi]
      exact hreq
    · rintro out w₁ ⟨new, hnew, -⟩
      have h₁ := pass_of_covered hw ho hnew
      obtain ⟨hserved, hlowest⟩ := hfirst hnew
      have hdone : w₁.onHand item = 0 ∨ w₁.shortOf candidate.number item = 0 := by
        rw [hnew.onHand, hnew.shortOf]
        exact hone
      have hrest := ih h₁.orderly hascending
        (hall.tail (h₁.onHand_le hitem) (fun n => hserved.shortOf_le n item) hdone)
      refine WorkEnds.bind hrest ?_ ?_
      · rintro outs w₂ ⟨hserved₂, hlowest₂⟩
        exact workEnds_pure ⟨hserved.trans hserved₂, hlowest.trans hlowest₂ hserved₂⟩
      · rintro f w₂ ⟨hserved₂, hlowest₂⟩
        exact ⟨hserved.trans hserved₂, hlowest.trans hlowest₂ hserved₂⟩
    · rintro f w₁ ⟨new, hnew, -⟩
      exact hfirst hnew

/-- **Units that arrived go to the orders with the lowest numbers.** -/
theorem ends_restock_lowestFirst (hw : w.Orderly c.menu) (item : String) :
    WorkEnds rank (c.restock d item) w fun _ w' => Served c.menu w w' ∧ w.LowestFirst w' := by
  have hrefl : Served c.menu w w ∧ w.LowestFirst w :=
    ⟨Served.of_same rfl rfl, World.lowestFirst_of_orders rfl⟩
  unfold restock
  refine workEnds_bind_ofRefusal (fun b hb => ?_) fun _ _ => hrefl
  cases b with
  | true => exact hrefl
  | false =>
    refine WorkEnds.bind (ends_search d hw.toTidy _) ?_ ?_
    · rintro os w ⟨rfl, hos⟩
      obtain ⟨-, rfl⟩ := (hos os).1 rfl
      refine ends_handOut_lowestFirst d hw hb
        (hw.numbers_ascending.sublist (List.filter_sublist.map _)) (.inr fun n hn => ?_)
      obtain ⟨o, ho, rfl, hopen, hreq⟩ := hw.isOpen_of_shortOf hn
      refine ⟨o, List.mem_filter.2 ⟨hw.mem_values.2 ho, ?_⟩, rfl⟩
      rw [OrderFilter.accepts_requesting, hopen, hreq]
      rfl
    · rintro f w ⟨rfl, -⟩
      exact hrefl

end Coverage

theorem Engine.ends_restockAll_lowestFirst {c : Coverage} (d : Deadline) (hw : w.Orderly c.menu)
    (items : List String) :
    WorkEnds rank (restockAll c d items) w fun _ w' => Served c.menu w w' ∧ w.LowestFirst w' := by
  induction items generalizing w with
  | nil => exact workEnds_pure ⟨Served.of_same rfl rfl, World.lowestFirst_of_orders rfl⟩
  | cons item r ih =>
    unfold restockAll
    refine Flow.Ends.bind_lift
      ((Coverage.ends_restock d hw item).and (Coverage.ends_restock_lowestFirst d hw item)) ?_
    rintro res w₁ ⟨⟨new, h₁, -⟩, hserved, hlowest⟩
    have hnext : WorkEnds rank (restockAll c d r) w₁ fun _ w' =>
        Served c.menu w w' ∧ w.LowestFirst w' := by
      refine (ih h₁.orderly).imp ?_
      rintro r' w₂ ⟨hserved₂, hlowest₂⟩
      exact ⟨hserved.trans hserved₂, hlowest.trans hlowest₂ hserved₂⟩
    split
    · exact hnext
    · exact hnext
    · exact workEnds_throw ⟨hserved, hlowest⟩

/-! ### New orders -/

namespace Coverage

variable {c : Coverage} (d : Deadline)

/-- **To cover a new order touches no other order**, and if nothing fails, what the new one still
misses was asked of the kitchen, and it misses nothing of an item that is still in stock. -/
theorem ends_coverNew_swept (hw : w.Orderly c.menu) (ha : w.store.store.answers = true)
    {n : OrderNumber} {o : Order} (ho : w.orders.find? n = some o) :
    WorkEnds rank (c.coverNew d n) w fun _ w' => ∃ new, Pass c.menu new w w' ∧
      (∀ k, n ≠ k → w'.orders.find? k = w.orders.find? k) ∧
      (w.Flowing → ∃ rs, Asked rs new ∧ Swept c.menu [o] rs w') := by
  unfold coverNew
  refine WorkEnds.bind (ends_load d hw.script n) ?_ ?_
  · rintro o' w ⟨rfl, hload⟩
    obtain ⟨-, ho'⟩ := (hload o').1 rfl
    obtain rfl := Option.some.inj (ho.symm.trans ho')
    obtain ⟨hsound, rfl⟩ := hw.sound n o ho
    split
    · have hitems : ∀ i ∈ o.names, o.requests i = true := fun i hi =>
        Order.requests_iff_mem_names.2 hi
      refine (ends_cover d hw ha ho hitems).imp ?_
      rintro r w' ⟨new, hnew, hok⟩
      refine ⟨new, pass_of_covered hw ho hnew, fun k hk => ?_, fun hf => ⟨_, (hok hf).2, ?_⟩⟩
      · rw [hnew.orders]
        exact World.find?_covered_of_ne _ hw ho hk
      · refine (swept_covered hw ho (Item.names_nodup o.items) hitems fun i hi => ?_).pass
          (Pass.of_aside (World.pass_covered _ hw ho).orderly hnew)
        exact Order.requests_iff_mem_names.1 (hsound.requests_of_short hi)
    · next hclosed =>
      have hnone := hsound.short_eq_zero (Bool.eq_false_iff.2 hclosed)
      exact workEnds_pure ⟨0, Pass.of_aside hw (Aside.refl w), fun _ _ => rfl,
        fun _ => ⟨[], asked_nil 0, swept_none ho hnone⟩⟩
  · rintro f w ⟨rfl, hload⟩
    cases (hload o).2 ⟨ha, ho⟩

end Coverage

end Takeaway
