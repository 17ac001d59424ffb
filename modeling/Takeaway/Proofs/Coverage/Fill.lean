import Takeaway.Coverage
import Takeaway.Proofs.Flow.Ends
import Takeaway.Proofs.Order.Sound

/-!
What packing an order comes to when nobody else is at work: for each item in turn, what is missing
is met as far as the stock goes. Main statements: `Coverage.fill` does exactly this, units only
move from the stock into the order, and for each item the stock is used up or nothing is missing.
-/

namespace Takeaway

namespace Coverage

/-- An order after packing, what was packed and is to be asked of the kitchen, and the stock that
is left. -/
structure Filling where
  order : Order
  packed : List Item
  requests : List Item
  stock : Stock

/-! ### One item -/

/-- How a need is met. -/
def met (m : Menu) (s : Stock) (item : String) (needed : Quantity) : Allocation :=
  match m.isInstant item with
  | .ok true => ⟨needed, Quantity.zero⟩
  | _ => ⟨(s.onHand item).least needed, needed.less ((s.onHand item).least needed)⟩

/-- The stock after a need was met. -/
def drawn (m : Menu) (s : Stock) (item : String) (needed : Quantity) : Stock :=
  match m.isInstant item with
  | .ok true => s
  | _ => s.without item ((s.onHand item).least needed)

/-- Packs what an order misses of an item. -/
def served (m : Menu) (item : String) (o : Order) (s : Stock) : Filling :=
  if o.short item = 0 then ⟨o, [], [], s⟩
  else
    let needed := Quantity.capped (o.short item)
    let a := met m s item needed
    ⟨if a.taken.units = 0 then o else o.pack item a.taken, line item a.taken,
      line item a.shortfall, drawn m s item needed⟩

/-- Packs what an order misses of the given items. -/
def filled (m : Menu) : List String → Order → Stock → Filling
  | [], o, s => ⟨o, [], [], s⟩
  | item :: r, o, s =>
    let f := served m item o s
    let g := filled m r f.order f.stock
    ⟨g.order, f.packed ++ g.packed, f.requests ++ g.requests, g.stock⟩

/-! ### The flows -/

section Flows

variable {rank : World.Rank} {w : World} {item : String}

theorem ends_allocate (needed : Quantity) (tries : Nat) :
    WorkEnds rank (allocate item needed (tries + 1)) w fun r w' =>
      r = .ok ⟨(w.stock.onHand item).least needed,
        needed.less ((w.stock.onHand item).least needed)⟩ ∧
      w' = { w with stock := w.stock.without item ((w.stock.onHand item).least needed) } := by
  unfold allocate
  generalize hq : (w.stock.onHand item).least needed = q
  have hle : q.units ≤ (w.stock.onHand item).units := by
    rw [← hq]; exact Nat.min_le_left _ _
  refine Flow.Ends.bind_lift (p := fun r w' => r = w.stock.onHand item ∧ w' = w)
    (Flow.ends_ask ⟨rfl, rfl⟩) ?_
  rintro _ w ⟨rfl, rfl⟩
  dsimp only
  rw [hq]
  split
  · next h0 =>
    obtain rfl : q = Quantity.zero := Quantity.ext h0
    exact workEnds_pure ⟨rfl, rfl⟩
  · -- nobody else takes units in between, so the take succeeds
    refine Flow.Ends.bind_lift (p := fun r w' => r = .ok () ∧
      w' = { w with stock := w.stock.without item q }) (Flow.ends_ask ?_) ?_
    · rw [World.perform_take hle]
      exact ⟨rfl, rfl⟩
    · rintro _ _ ⟨rfl, rfl⟩
      exact workEnds_pure ⟨rfl, rfl⟩

theorem ends_supply (c : Coverage) {b : Bool} (hb : c.menu.isInstant item = .ok b)
    (needed : Quantity) : WorkEnds rank (c.supply item needed) w fun r w' =>
      r = .ok (met c.menu w.stock item needed) ∧
        w' = { w with stock := drawn c.menu w.stock item needed } := by
  unfold supply met drawn
  rw [hb]
  refine workEnds_bind_ofRefusal ?_ (by rintro _ ⟨⟩)
  rintro _ ⟨⟩
  cases b
  · exact ends_allocate needed 7
  · exact workEnds_pure ⟨rfl, rfl⟩

end Flows

end Coverage

namespace Order.Sound

variable {m : Menu} {o : Order} {item : String}

/-- What an order asks for is on the menu. -/
theorem isInstant_ok (h : o.Sound m) (hr : o.requests item = true) :
    ∃ b, m.isInstant item = .ok b := by
  obtain ⟨i, hi, rfl⟩ := requests_iff.1 hr
  have hm := h.onMenu i hi
  unfold Index.contains at hm
  obtain ⟨entry, he⟩ := Option.isSome_iff_exists.1 hm
  unfold Menu.isInstant Menu.entry
  rw [he]
  exact ⟨entry.isInstant, rfl⟩

/-- The need of an item that a sound order misses is what it misses. -/
theorem needed_units (h : o.Sound m) (item : String) :
    (Quantity.capped (o.short item)).units = o.short item :=
  Quantity.capped_units_of_le (h.short_le item)

end Order.Sound

namespace Coverage

variable {m : Menu} {o : Order} {s : Stock} {item : String}

/-! ### What packing one item does -/

/-- A need is met by what is taken and what is asked for. -/
theorem met_add (m : Menu) (s : Stock) (item : String) (needed : Quantity) :
    (met m s item needed).taken.units + (met m s item needed).shortfall.units =
      needed.units := by
  have hstocked : ((s.onHand item).least needed).units +
      (needed.less ((s.onHand item).least needed)).units = needed.units := by
    simp only [Quantity.least, Quantity.less]
    omega
  unfold met
  split
  · rfl
  · exact hstocked

theorem met_of_instant (hb : m.isInstant item = .ok true) (needed : Quantity) :
    (met m s item needed).taken = needed ∧ drawn m s item needed = s := by
  unfold met drawn
  rw [hb]
  exact ⟨rfl, rfl⟩

/-- What is taken of a stocked item leaves the stock, and is all there is if it is not enough. -/
theorem met_of_stocked (hb : m.isInstant item = .ok false) (needed : Quantity) :
    ((drawn m s item needed).onHand item).units + (met m s item needed).taken.units =
        (s.onHand item).units ∧
      ((met m s item needed).taken.units = needed.units ∨
        ((drawn m s item needed).onHand item).units = 0) := by
  have hle : ((s.onHand item).least needed).units ≤ (s.onHand item).units :=
    Nat.min_le_left _ _
  have hdraw := Stock.onHand_without hle
  have hmin : ((s.onHand item).least needed).units =
      min (s.onHand item).units needed.units := rfl
  unfold met drawn
  rw [hb]
  dsimp only
  omega

theorem drawn_other (m : Menu) (s : Stock) (needed : Quantity) {i : String} (hi : item ≠ i) :
    (drawn m s item needed).onHand i = s.onHand i := by
  unfold drawn
  split
  · rfl
  · exact Stock.onHand_without_of_ne (Nat.min_le_left _ _) hi

theorem unitsOf_line (item i : String) (q : Quantity) :
    Item.unitsOf i (line item q) = if item = i then q.units else 0 := by
  unfold line
  split
  · next h0 => rw [h0]; split <;> rfl
  · simp [Item.unitsOf]

theorem line_eq_nil {q : Quantity} : line item q = [] ↔ q.units = 0 := by
  unfold line
  split <;> simp [*]

theorem drawn_announces (m : Menu) (s : Stock) (item : String) (needed : Quantity) :
    (drawn m s item needed).announces = s.announces := by
  unfold drawn
  split
  · rfl
  · exact Stock.announces_without s item _

theorem drawn_of_none {needed : Quantity} (h : (met m s item needed).taken.units = 0) :
    drawn m s item needed = s := by
  unfold met at h
  unfold drawn
  split at h
  · rfl
  · exact if_pos h

theorem line_name {q : Quantity} {l : Item} (h : l ∈ line item q) : l.name = item := by
  unfold line at h
  split at h
  · cases h
  · rw [List.mem_singleton.1 h]

/-- What serving an item does to an order and a stock when `q` units of it are packed. -/
structure Filling.Serves (m : Menu) (item : String) (o : Order) (s : Stock) (f : Filling)
    (q : Quantity) : Prop where
  le : q.units ≤ o.short item
  order : f.order = if q.units = 0 then o else o.pack item q
  packed : f.packed = line item q
  requests : ∀ i, Item.unitsOf i f.requests = if item = i then o.short item - q.units else 0
  lines : ∀ l ∈ f.requests, l.name = item
  instant : m.isInstant item = .ok true → q.units = o.short item
  stocked : m.isInstant item = .ok false →
    (f.stock.onHand item).units + q.units = (s.onHand item).units ∧
      (q.units = o.short item ∨ (f.stock.onHand item).units = 0)
  other : ∀ i, item ≠ i → f.stock.onHand i = s.onHand i
  announces : f.stock.announces = s.announces
  idle : q.units = 0 → f.stock = s

/-- Nothing that is handed out at once is asked of the kitchen. -/
theorem served_of_instant (hb : m.isInstant item = .ok true) :
    (served m item o s).requests = [] := by
  unfold served met
  rw [hb]
  split <;> rfl

theorem served_serves (h : o.Sound m) (item : String) (s : Stock) :
    ∃ q, (served m item o s).Serves m item o s q := by
  unfold served
  split
  · next h0 =>
    refine ⟨Quantity.zero, Nat.zero_le _, rfl, rfl, fun i => ?_, by simp, fun _ => h0.symm,
      fun _ => ⟨rfl, .inl h0.symm⟩, fun _ _ => rfl, rfl, fun _ => rfl⟩
    rw [h0]
    split <;> rfl
  · have hneed := h.needed_units item
    have hadd := met_add m s item (Quantity.capped (o.short item))
    rw [hneed] at hadd
    refine ⟨(met m s item (Quantity.capped (o.short item))).taken, by omega, rfl, rfl,
      fun i => ?_, fun l hl => line_name hl, fun hb => ?_, fun hb => ?_,
      fun i hi => drawn_other m s _ hi, drawn_announces m s item _, fun h0 => drawn_of_none h0⟩
    · rw [unitsOf_line]
      split <;> omega
    · rw [(met_of_instant (s := s) hb _).1, hneed]
    · have := met_of_stocked (s := s) hb (Quantity.capped (o.short item))
      rwa [hneed] at this

namespace Filling.Serves

variable {f : Filling} {q : Quantity}

theorem packedOf (h : f.Serves m item o s q) (i : String) :
    f.order.packedOf i = o.packedOf i + if item = i then q.units else 0 := by
  rw [h.order]
  split
  · next h0 => rw [h0]; split <;> rfl
  · rw [Order.packedOf_pack]

theorem items (h : f.Serves m item o s q) : f.order.items = o.items := by
  rw [h.order]
  split
  · rfl
  · rw [Order.pack_items]

theorem requests_order (h : f.Serves m item o s q) (i : String) :
    f.order.requests i = o.requests i := by
  unfold Order.requests
  rw [h.items]

theorem number (h : f.Serves m item o s q) : f.order.number = o.number := by
  rw [h.order]
  split
  · rfl
  · rw [Order.pack_number]

theorem sound (h : f.Serves m item o s q) (ho : o.Sound m) : f.order.Sound m := by
  rw [h.order]
  split
  · exact ho
  · next h0 => exact ho.pack (Nat.pos_of_ne_zero h0) h.le

/-- What is still missing of the item was asked of the kitchen. -/
theorem short (h : f.Serves m item o s q) (i : String) :
    f.order.short i = if item = i then o.short i - q.units else o.short i := by
  unfold Order.short Order.requestedOf
  rw [h.packedOf, h.items]
  split <;> omega

end Filling.Serves

/-! ### What packing several items does -/

/-- An order and a stock after packing, compared with those before. -/
structure Filling.Follows (m : Menu) (f : Filling) (o : Order) (s : Stock) : Prop where
  number : f.order.number = o.number
  items : f.order.items = o.items
  sound : f.order.Sound m
  grows : ∀ i, o.packedOf i ≤ f.order.packedOf i
  conserves : ∀ i, m.isInstant i = .ok false →
    (f.stock.onHand i).units + f.order.packedOf i = (s.onHand i).units + o.packedOf i
  announces : f.stock.announces = s.announces
  idle : f.packed = [] → f.order = o ∧ f.stock = s

theorem Filling.Serves.follows {f : Filling} {q : Quantity} (h : f.Serves m item o s q)
    (ho : o.Sound m) : f.Follows m o s where
  number := h.number
  items := h.items
  sound := h.sound ho
  grows i := by rw [h.packedOf]; exact Nat.le_add_right _ _
  conserves i hi := by
    rw [h.packedOf]
    by_cases heq : item = i
    · subst heq
      have := (h.stocked hi).1
      rw [if_pos rfl]
      omega
    · rw [if_neg heq, h.other i heq]
      omega
  announces := h.announces
  idle hp := by
    rw [h.packed, line_eq_nil] at hp
    exact ⟨by rw [h.order, if_pos hp], h.idle hp⟩

theorem filled_follows (items : List String) (ho : o.Sound m) (s : Stock) :
    (filled m items o s).Follows m o s := by
  induction items generalizing o s with
  | nil => exact ⟨rfl, rfl, ho, fun _ => le_rfl, fun _ _ => rfl, rfl, fun _ => ⟨rfl, rfl⟩⟩
  | cons item r ih =>
    obtain ⟨q, hq⟩ := served_serves ho item s
    have hf := hq.follows ho
    have hg := ih hf.sound (served m item o s).stock
    unfold filled
    refine ⟨hg.number.trans hf.number, hg.items.trans hf.items, hg.sound,
      fun i => (hf.grows i).trans (hg.grows i),
      fun i hi => (hg.conserves i hi).trans (hf.conserves i hi),
      hg.announces.trans hf.announces, fun hp => ?_⟩
    obtain ⟨hp₁, hp₂⟩ := List.append_eq_nil_iff.1 hp
    obtain ⟨h₁, h₂⟩ := hf.idle hp₁
    obtain ⟨h₃, h₄⟩ := hg.idle hp₂
    exact ⟨h₃.trans h₁, h₄.trans h₂⟩

/-- Items that are not named are left alone. -/
theorem filled_other {items : List String} (ho : o.Sound m) (s : Stock) {i : String}
    (hi : i ∉ items) : (filled m items o s).order.packedOf i = o.packedOf i ∧
      (filled m items o s).stock.onHand i = s.onHand i ∧
      Item.unitsOf i (filled m items o s).requests = 0 := by
  induction items generalizing o s with
  | nil => exact ⟨rfl, rfl, rfl⟩
  | cons item r ih =>
    obtain ⟨hne, hr⟩ := not_or.1 (mt List.mem_cons.2 hi)
    have hne : item ≠ i := fun h => hne h.symm
    obtain ⟨q, hq⟩ := served_serves ho item s
    obtain ⟨h₁, h₂, h₃⟩ := ih (hq.sound ho) (served m item o s).stock hr
    unfold filled
    refine ⟨?_, ?_, ?_⟩
    · rw [h₁, hq.packedOf, if_neg hne, Nat.add_zero]
    · rw [h₂, hq.other i hne]
    · rw [Item.unitsOf_append, hq.requests, if_neg hne, h₃]

theorem filled_lines {items : List String} (ho : o.Sound m) (s : Stock) :
    ∀ l ∈ (filled m items o s).requests, l.name ∈ items := by
  induction items generalizing o s with
  | nil => intro l hl; cases hl
  | cons item r ih =>
    obtain ⟨q, hq⟩ := served_serves ho item s
    intro l hl
    rcases List.mem_append.1 hl with hl | hl
    · rw [hq.lines l hl]
      exact List.mem_cons_self ..
    · exact List.mem_cons_of_mem _ (ih (hq.sound ho) _ l hl)

/-- The kitchen is asked for items only that are kept in stock. -/
theorem filled_stocked {items : List String} (ho : o.Sound m)
    (hitems : ∀ i ∈ items, o.requests i = true) (s : Stock) :
    ∀ l ∈ (filled m items o s).requests, m.isInstant l.name = .ok false := by
  induction items generalizing o s with
  | nil => intro l hl; cases hl
  | cons item r ih =>
    obtain ⟨hitem, hrest⟩ := List.forall_mem_cons.1 hitems
    obtain ⟨q, hq⟩ := served_serves ho item s
    intro l hl
    rcases List.mem_append.1 hl with hl | hl
    · rw [hq.lines l hl]
      obtain ⟨b, hb⟩ := ho.isInstant_ok hitem
      cases b with
      | false => exact hb
      | true =>
        rw [served_of_instant hb] at hl
        cases hl
    · refine ih (hq.sound ho) (fun i hi => ?_) _ l hl
      rw [hq.requests_order]
      exact hrest i hi

/-- What was packed is what the order gained. -/
theorem filled_packed (items : List String) (ho : o.Sound m) (s : Stock) (i : String) :
    (filled m items o s).order.packedOf i =
      o.packedOf i + Item.unitsOf i (filled m items o s).packed := by
  induction items generalizing o s with
  | nil => rfl
  | cons item r ih =>
    obtain ⟨q, hq⟩ := served_serves ho item s
    unfold filled
    dsimp only
    rw [ih (hq.sound ho), hq.packedOf, hq.packed, Item.unitsOf_append, unitsOf_line]
    omega

/-- Of the items that are named, what is still missing was asked of the kitchen; nothing is
missing of an instant one, nor of a stocked one as long as there are units. -/
theorem filled_named {items : List String} (ho : o.Sound m) (s : Stock) (hitems : items.Nodup)
    {i : String} (hi : i ∈ items) :
    Item.unitsOf i (filled m items o s).requests = (filled m items o s).order.short i ∧
      (m.isInstant i = .ok true → (filled m items o s).order.short i = 0) ∧
      (m.isInstant i = .ok false → (filled m items o s).order.short i = 0 ∨
        ((filled m items o s).stock.onHand i).units = 0) := by
  induction items generalizing o s with
  | nil => cases hi
  | cons item r ih =>
    obtain ⟨hnot, hnodup⟩ := List.nodup_cons.1 hitems
    obtain ⟨q, hq⟩ := served_serves ho item s
    have hsound := hq.sound ho
    by_cases heq : item = i
    · subst heq
      obtain ⟨h₁, h₂, h₃⟩ := filled_other hsound (served m item o s).stock hnot
      have hle := hq.le
      have hshort : (filled m r (served m item o s).order (served m item o s).stock).order.short
          item = o.short item - q.units := by
        have hitems := (filled_follows r hsound (served m item o s).stock).items
        have := hq.short item
        rw [if_pos rfl] at this
        rw [← this]
        unfold Order.short Order.requestedOf
        rw [h₁, hitems]
      unfold filled
      dsimp only
      refine ⟨?_, fun hb => ?_, fun hb => ?_⟩
      · rw [Item.unitsOf_append, hq.requests, if_pos rfl, h₃, hshort]
        rfl
      · have := hq.instant hb
        omega
      · rw [h₂]
        have := (hq.stocked hb).2
        omega
    · obtain hi := (List.mem_cons.1 hi).resolve_left fun h => heq h.symm
      obtain ⟨h₁, h₂, h₃⟩ := ih hsound (served m item o s).stock hnodup hi
      unfold filled
      dsimp only
      refine ⟨?_, h₂, h₃⟩
      rw [Item.unitsOf_append, hq.requests, if_neg heq, h₁, Nat.zero_add]

/-! ### The flow -/

/-- **Packing an order does what is said of it**: nobody else is at work between a look at the
stock and a take. -/
theorem ends_fill {rank : World.Rank} {w : World} (c : Coverage) {items : List String}
    (ho : o.Sound c.menu) (hitems : ∀ i ∈ items, o.requests i = true) :
    WorkEnds rank (c.fill items o) w fun r w' =>
      r = .ok ((filled c.menu items o w.stock).order, (filled c.menu items o w.stock).packed,
        (filled c.menu items o w.stock).requests) ∧
      w' = { w with stock := (filled c.menu items o w.stock).stock } := by
  induction items generalizing o w with
  | nil => exact workEnds_pure ⟨rfl, rfl⟩
  | cons item r ih =>
    obtain ⟨hitem, hrest⟩ := List.forall_mem_cons.1 hitems
    obtain ⟨b, hb⟩ := ho.isInstant_ok hitem
    obtain ⟨q, hq⟩ := served_serves ho item w.stock
    have hmissing : o.missing? item = .ok (o.missing item) := if_pos hitem
    have hrest' : ∀ i ∈ r, (served c.menu item o w.stock).order.requests i = true := by
      intro i hi
      rw [hq.requests_order]
      exact hrest i hi
    have hind := @ih _ { w with stock := (served c.menu item o w.stock).stock } (hq.sound ho) hrest'
    unfold fill filled
    rw [hmissing]
    refine workEnds_bind_ofRefusal ?_ (by rintro _ ⟨⟩)
    rintro _ ⟨⟩
    rw [ho.missing_eq]
    dsimp only
    unfold served at hind ⊢
    by_cases h0 : o.short item = 0
    · rw [if_pos (by omega)]
      simp only [if_pos h0] at hind ⊢
      exact hind
    · rw [if_neg (by omega), Int.toNat_natCast]
      simp only [if_neg h0] at hind ⊢
      refine WorkEnds.bind (ends_supply c hb _) ?_ (by rintro _ _ ⟨⟨⟩, -⟩)
      rintro _ _ ⟨⟨⟩, rfl⟩
      refine WorkEnds.bind hind ?_ (by rintro _ _ ⟨⟨⟩, -⟩)
      rintro _ _ ⟨⟨⟩, rfl⟩
      exact workEnds_pure ⟨rfl, rfl⟩

end Coverage

end Takeaway
