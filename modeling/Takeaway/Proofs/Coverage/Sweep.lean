import Takeaway.Proofs.Coverage.Run

/-!
What a sweep comes to when nobody else is at work. Main statement: it serves the open orders from
the stock, and if nothing fails, what is missing after it was asked of the kitchen, and nothing is
missing of an item that is still in stock.
-/

namespace Takeaway.Coverage

open World (Aside Pass Orderly)

variable {rank : World.Rank} {w w' : World} {m : Menu}

/-- Some orders were covered, with the given requests of the kitchen. -/
structure Swept (m : Menu) (orders : List Order) (rs : List (OrderNumber × Item)) (w : World) :
    Prop where
  known : ∀ r ∈ rs, ∃ o ∈ orders, r.1 = o.number ∧ o.requests r.2.name = true
  instant : ∀ i, m.isInstant i = .ok true → ∀ o ∈ orders, w.shortOf o.number i = 0
  left : ∀ i, m.isInstant i = .ok false → w.onHand i = 0 ∨ ∀ o ∈ orders, w.shortOf o.number i = 0
  asked : ∀ i, (orders.map fun o => w.shortOf o.number i).sum ≤ Item.unitsOf i (rs.map (·.2))

namespace Swept

variable {orders orders' : List Order} {rs rs' : List (OrderNumber × Item)}

theorem nil (m : Menu) (w : World) : Swept m [] [] w :=
  ⟨(by simp), (by simp), fun _ _ => .inr (by simp), fun _ => le_rfl⟩

/-- Serving more orders does no harm. -/
theorem pass {new : Multiset Envelope} (h : Swept m orders rs w) (hp : Pass m new w w') :
    Swept m orders rs w' where
  known := h.known
  instant i hi o ho := by
    have h₁ := h.instant i hi o ho
    have h₂ := hp.served.shortOf_le o.number i
    omega
  left i hi := by
    rcases h.left i hi with h0 | h0
    · have := hp.onHand_le hi
      exact .inl (by omega)
    · refine .inr fun o ho => ?_
      have h₁ := h0 o ho
      have h₂ := hp.served.shortOf_le o.number i
      omega
  asked i := by
    refine Nat.le_trans ?_ (h.asked i)
    exact List.sum_le_sum fun o _ => hp.served.shortOf_le o.number i

theorem append (h : Swept m orders rs w) (h' : Swept m orders' rs' w) :
    Swept m (orders ++ orders') (rs ++ rs') w where
  known r hr := by
    rcases List.mem_append.1 hr with hr | hr
    · obtain ⟨o, ho, hk⟩ := h.known r hr
      exact ⟨o, List.mem_append_left _ ho, hk⟩
    · obtain ⟨o, ho, hk⟩ := h'.known r hr
      exact ⟨o, List.mem_append_right _ ho, hk⟩
  instant i hi o ho := by
    rcases List.mem_append.1 ho with ho | ho
    · exact h.instant i hi o ho
    · exact h'.instant i hi o ho
  left i hi := by
    rcases h.left i hi with h0 | h0
    · exact .inl h0
    · rcases h'.left i hi with h1 | h1
      · exact .inl h1
      · refine .inr fun o ho => ?_
        rcases List.mem_append.1 ho with ho | ho
        · exact h0 o ho
        · exact h1 o ho
  asked i := by
    rw [List.map_append, List.sum_append, List.map_append, Item.unitsOf_append]
    exact Nat.add_le_add (h.asked i) (h'.asked i)

end Swept

/-- An order that was covered for all that it missed. -/
theorem swept_covered (hw : w.Orderly m) {o : Order} (ho : w.orders.find? o.number = some o)
    {items : List String} (hnodup : items.Nodup) (hitems : ∀ i ∈ items, o.requests i = true)
    (hall : ∀ i, 0 < o.short i → i ∈ items) :
    Swept m [o] ((filled m items o w.stock).requests.map fun i => (o.number, i))
      (w.covered m items o) := by
  have hsound := (hw.sound _ _ ho).1
  have hshort := World.shortOf_covered items hw ho
  have hnamed := fun {i : String} => filled_named hsound w.stock hnodup (i := i)
  -- an item that is not named was not missing before
  have hother : ∀ i, i ∉ items → (w.covered m items o).shortOf o.number i = 0 := by
    intro i hi
    have hle := (World.pass_covered items hw ho).served.shortOf_le o.number i
    have hnone := mt (hall i) hi
    rw [World.shortOf_eq ho] at hle
    omega
  constructor
  case known =>
    intro r hr
    obtain ⟨l, hl, rfl⟩ := List.mem_map.1 hr
    exact ⟨o, List.mem_singleton_self o, rfl, hitems _ (filled_lines hsound w.stock l hl)⟩
  case instant =>
    intro i hi x hx
    obtain rfl := List.mem_singleton.1 hx
    by_cases hmem : i ∈ items
    · rw [hshort]
      exact (hnamed hmem).2.1 hi
    · exact hother i hmem
  case left =>
    intro i hi
    by_cases hmem : i ∈ items
    · rcases (hnamed hmem).2.2 hi with h0 | h0
      · refine .inr fun x hx => ?_
        rw [List.mem_singleton.1 hx, hshort]
        exact h0
      · refine .inl ?_
        unfold World.onHand
        rw [World.covered_stock _ hsound]
        exact h0
    · exact .inr fun x hx => by rw [List.mem_singleton.1 hx]; exact hother i hmem
  case asked =>
    intro i
    rw [List.map_singleton, List.sum_singleton, List.map_map]
    have hid : ((fun r : OrderNumber × Item => r.2) ∘ fun i => (o.number, i)) = id := rfl
    rw [hid, List.map_id]
    by_cases hmem : i ∈ items
    · rw [hshort, (hnamed hmem).1]
    · rw [hother i hmem]
      exact Nat.zero_le _

/-- An order that misses nothing. -/
theorem swept_none {o : Order} (ho : w.orders.find? o.number = some o)
    (h : ∀ i, o.short i = 0) : Swept m [o] [] w := by
  have hshort : ∀ i, ∀ x ∈ [o], w.shortOf x.number i = 0 := fun i x hx => by
    rw [List.mem_singleton.1 hx, World.shortOf_eq ho, h i]
  refine ⟨(by simp), fun i _ => hshort i, fun i _ => .inr (hshort i), fun i => ?_⟩
  rw [List.map_singleton, List.sum_singleton, hshort i o (List.mem_singleton_self o)]
  exact Nat.zero_le _

variable {c : Coverage} (d : Deadline)

theorem ends_coverEach (hw : w.Orderly c.menu) (ha : w.store.store.answers = true)
    {orders : List Order} (hstored : ∀ o ∈ orders, w.orders.find? o.number = some o)
    (hnodup : (orders.map fun o => o.number).Nodup) :
    (c.coverEach d orders).Ends rank w fun r w' => ∃ new, Pass c.menu new w w' ∧
      (w.Flowing → r.2 = none ∧ ∃ rs, Asked rs new ∧ Swept c.menu orders rs w') := by
  induction orders generalizing w with
  | nil =>
    exact ⟨0, Pass.of_aside hw (Aside.refl w), fun _ => ⟨rfl, [], asked_nil 0, Swept.nil _ _⟩⟩
  | cons o r ih =>
    obtain ⟨ho, hrest⟩ := List.forall_mem_cons.1 hstored
    obtain ⟨hnot, hnodup⟩ := List.nodup_cons.1 hnodup
    have hsound := (hw.sound _ _ ho).1
    have hitems : ∀ i ∈ o.missingItems.map (·.name), o.requests i = true := fun i hi =>
      hsound.requests_of_short (hsound.mem_missing_names.1 hi)
    refine ends_coverEach_cons d hsound (fun hnone => ?_) (ends_cover d hw ha ho) ?_
    · refine (ih hw ha hrest hnodup).imp ?_
      rintro res w' ⟨new, hpass, hok⟩
      refine ⟨new, hpass, fun hf => ?_⟩
      obtain ⟨hfault, rs, hasked, hswept⟩ := hok hf
      exact ⟨hfault, rs, hasked, ((swept_none ho hnone).pass hpass).append hswept⟩
    · rintro res w₁ ⟨new, hnew, hok⟩
      have h₁ := pass_of_covered hw ho hnew
      have hswept₁ := (swept_covered hw ho o.missing_names_nodup hitems fun _ =>
        hsound.mem_missing_names.2).pass
        (Pass.of_aside (World.pass_covered _ hw ho).orderly hnew)
      refine (ih h₁.orderly (h₁.kept.answers.trans ha)
        (World.find?_of_covered _ hw ho hnew.orders hnot hrest) hnodup).imp ?_
      rintro rest w₂ ⟨new₂, h₂, hok₂⟩
      refine ⟨new + new₂, h₁.trans h₂, fun hf => ?_⟩
      obtain ⟨⟨outcome, rfl⟩, hasked₁⟩ := hok hf
      obtain ⟨hfault, rs, hasked, hswept⟩ := hok₂ (h₁.kept.flowing hf)
      exact ⟨hfault, _, hasked₁.add hasked, (hswept₁.pass h₂).append hswept⟩

/-! ### All open orders -/

/-- What is missing after all open orders were covered is missing of these. -/
theorem short_le_of_swept (hw : w.Orderly m) {new : Multiset Envelope} (hp : Pass m new w w')
    (i : String) : w'.short i ≤
      ((w.orders.values.filter OrderFilter.waiting.accepts).map fun o =>
        w'.shortOf o.number i).sum := by
  have hnodup : ((w.orders.values.filter OrderFilter.waiting.accepts).map fun o =>
      o.number).Nodup :=
    hw.numbers_nodup.sublist (List.filter_sublist.map _)
  have hsum : ((w.orders.values.filter OrderFilter.waiting.accepts).map fun o =>
      w'.shortOf o.number i).sum =
      ∑ n ∈ ((w.orders.values.filter OrderFilter.waiting.accepts).map fun o =>
        o.number).toFinset, w'.shortOf n i := by
    rw [List.sum_toFinset _ hnodup, List.map_map]
    rfl
  rw [hsum]
  unfold World.short
  rw [Index.total_eq_sum_keys]
  refine Finset.sum_le_sum_of_ne_zero fun n _ hne => ?_
  have hle := hp.served.shortOf_le n i
  have hpos : 0 < w'.shortOf n i := Nat.pos_of_ne_zero hne
  obtain ⟨o, ho, rfl, hopen, -⟩ := hw.isOpen_of_shortOf (n := n) (i := i) (by omega)
  refine List.mem_toFinset.2 (List.mem_map.2 ⟨o, List.mem_filter.2 ⟨hw.mem_values.2 ho, ?_⟩, rfl⟩)
  rw [OrderFilter.accepts_waiting]
  exact hopen

/-- **A sweep serves the open orders**; if nothing fails, what is still missing was asked of the
kitchen, and nothing is missing of an item that is still in stock. -/
theorem ends_sweep (hw : w.Orderly c.menu) :
    WorkEnds rank (c.sweep d) w fun r w' => ∃ new, Pass c.menu new w w' ∧
      (w.Flowing → w.store.store.answers = true → (∃ outs, r = .ok outs) ∧
        ∃ rs, Asked rs new ∧
          (∀ r ∈ rs, ∃ o, w.orders.find? r.1 = some o ∧ o.requests r.2.name = true) ∧
          (∀ i, c.menu.isInstant i = .ok true → w'.short i = 0) ∧
          ∀ i, c.menu.isInstant i = .ok false →
            (w'.onHand i = 0 ∨ w'.short i = 0) ∧ w'.short i ≤ Item.unitsOf i (rs.map (·.2))) := by
  have hrefl : Pass c.menu 0 w w := Pass.of_aside hw (Aside.refl w)
  unfold sweep
  refine WorkEnds.bind (ends_search d hw.toTidy _) ?_ ?_
  · rintro os w ⟨rfl, hos⟩
    obtain ⟨ha, rfl⟩ := (hos os).1 rfl
    have hstored : ∀ o ∈ w.orders.values.filter OrderFilter.waiting.accepts,
        w.orders.find? o.number = some o := fun o ho =>
      hw.mem_values.1 (List.mem_filter.1 ho).1
    have hnodup : ((w.orders.values.filter OrderFilter.waiting.accepts).map fun o =>
        o.number).Nodup := hw.numbers_nodup.sublist (List.filter_sublist.map _)
    have heach : Flow.Ends rank _ w _ := ends_coverEach d hw ha hstored hnodup
    refine Flow.Ends.bind_lift heach ?_
    rintro ⟨outcomes, fault⟩ w₁ ⟨new, hpass, hok⟩
    cases fault with
    | none =>
      refine workEnds_pure ⟨new, hpass, fun hf ha => ⟨⟨_, rfl⟩, ?_⟩⟩
      obtain ⟨-, rs, hasked, hswept⟩ := hok hf
      have hshort := short_le_of_swept hw hpass
      have hzero : ∀ i, (∀ o ∈ w.orders.values.filter OrderFilter.waiting.accepts,
          w₁.shortOf o.number i = 0) → w₁.short i = 0 := fun i h => by
        refine Nat.le_zero.1 ((hshort i).trans (Nat.le_of_eq (List.sum_eq_zero fun k hk => ?_)))
        obtain ⟨o, ho, rfl⟩ := List.mem_map.1 hk
        exact h o ho
      refine ⟨rs, hasked, fun r hr => ?_, fun i hi => ?_, fun i hi => ⟨?_, ?_⟩⟩
      · obtain ⟨o, ho, hn, hreq⟩ := hswept.known r hr
        exact ⟨o, by rw [hn]; exact hstored o ho, hreq⟩
      · exact hzero i (hswept.instant i hi)
      · exact (hswept.left i hi).imp_right (hzero i)
      · exact (hshort i).trans (hswept.asked i)
    | some f =>
      refine workEnds_throw ⟨new, hpass, fun hf _ => ?_⟩
      obtain ⟨hnone, -⟩ := hok hf
      cases hnone
  · rintro f w ⟨rfl, hno⟩
    exact ⟨0, hrefl, fun _ ha => absurd ((hno _).2 ⟨ha, rfl⟩) (by simp)⟩

end Takeaway.Coverage
