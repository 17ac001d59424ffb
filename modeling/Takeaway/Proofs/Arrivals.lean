import Takeaway.Proofs.Engine.EachItem

/-!
What arrivals of several items come to. Main statements: an arrival that was handled is used up, so
that to handle it again, or another that names no other items, is to do nothing; and as long as
everything works, the order of the lines of an arrival makes no difference but to the order of what
is packed and said.
-/

namespace Takeaway

open World (Aside Orderly)

variable {w w₁ w₂ : World} {m : Menu} {l₁ l₂ : List Deed} {items items' : List String}

/-- Tells that the given lines arrived. -/
def Envelope.arrival (lines : List Item) : Envelope :=
  ((Envelope.blank (Timestamp.ofMillis 0)).withEvent .itemAdded).withJson (Item.linesDocument lines)

/-! ### Arrivals that come again -/

namespace Engine

/-- **An arrival that comes again makes no difference.** When an arrival was handled well, handling
another that names no other items, however many units it tells of, succeeds and does nothing. -/
theorem arrival_again (e : Engine) (ops : List Operation) {x y : Envelope}
    {lines lines' : List Item} (hx : x.event = .ok .itemAdded)
    (hlines : x.decode Item.linesReader = .ok lines) (hy : y.event = .ok .itemAdded)
    (hlines' : y.decode Item.linesReader = .ok lines')
    (hnames : ∀ i ∈ lines', ∃ j ∈ lines, j.name = i.name)
    (hok : ∀ r ∈ (e.handle x (e.after ops)).1, r.succeeded = true) :
    (e.handle y (e.handled x (e.after ops))).1 = [⟨restockKind, none⟩] ∧
      (e.handled x (e.after ops)).Untouched (e.handled y (e.handled x (e.after ops))) ∧
      Deeds.saved ((Operation.handle y).trail e (e.handled x (e.after ops))) = [] ∧
      Deeds.said ((Operation.handle y).trail e (e.handled x (e.after ops))) = [] := by
  have hw := World.orderly_after e ops
  generalize e.after ops = w at hw hok ⊢
  obtain ⟨res, w₁, ⟨new, hpass, hspent⟩, haside, hresult⟩ :=
    handled_of_job (job_restock hx hlines) fun d =>
      ends_restockAll_spent (c := e.coverage) d hw (Item.names lines)
  have hres : res = .ok () := by
    rw [hresult] at hok
    have hnone := hok _ (List.mem_singleton_self _)
    cases res with
    | ok u => rfl
    | error f => cases hnone
  -- an item that is used up is so still when the clock went on
  have hagain : ∀ i ∈ Item.names lines', e.menu.isInstant i = .ok false →
      (e.handled x w).store.store.answers = true ∧ (e.handled x w).Spent i := by
    intro i hi hitem
    obtain ⟨j, hj, rfl⟩ := Item.mem_names.1 hi
    obtain ⟨k, hk, hkj⟩ := hnames j hj
    obtain ⟨ha, hs⟩ := hspent hres k.name (Item.mem_names.2 ⟨k, hk, rfl⟩) (hkj ▸ hitem)
    refine ⟨by rw [haside.store]; exact ha, ?_⟩
    unfold World.Spent
    rw [haside.onHand, haside.short, ← hkj]
    exact hs
  obtain ⟨l, res', w₂, ⟨hl, rfl, rfl⟩, htally, huntouched, hresult'⟩ :=
    does_of_job (job_restock hy hlines') fun d =>
      does_restockAll_idle (c := e.coverage) d (hpass.orderly.aside haside) hagain
  rw [hl.saved, hl.noted, hl.sent] at htally
  exact ⟨hresult', huntouched, htally.saved, htally.said_eq_nil⟩

/-- Fries and an item off the menu arrive, and then the fries are told of once more. -/
theorem arrival_again_fries :
    let ops : List Operation := [.place ⟨7⟩ [⟨"fries", Quantity.capped 3⟩],
      .addInventory "fries" Quantity.one]
    let x := Envelope.arrival [⟨"fries", Quantity.one⟩, ⟨"caviar", Quantity.one⟩]
    let y := Envelope.arrival [⟨"fries", Quantity.capped 5⟩, ⟨"fries", Quantity.one⟩]
    (handle {} x (after {} ops)).1 = [⟨restockKind, none⟩] ∧
      (handle {} y (handled {} x (after {} ops))).1 = [⟨restockKind, none⟩] ∧
      (handled {} x (after {} ops)).Untouched (handled {} y (handled {} x (after {} ops))) := by
  intro ops x y
  have hx : (handle {} x (after {} ops)).1 = [⟨restockKind, none⟩] := by decide +kernel
  have hlines : x.decode Item.linesReader =
      .ok [⟨"fries", Quantity.one⟩, ⟨"caviar", Quantity.one⟩] := by decide +kernel
  have hlines' : y.decode Item.linesReader =
      .ok [⟨"fries", Quantity.capped 5⟩, ⟨"fries", Quantity.one⟩] := by decide +kernel
  obtain ⟨hresult, huntouched, -⟩ := arrival_again {} ops (by decide +kernel) hlines
    (by decide +kernel) hlines' (by decide) (by rw [hx]; decide)
  exact ⟨hx, hresult, huntouched⟩

end Engine

/-! ### The order of the lines -/

theorem Coverage.units_line (item : String) (q : Quantity) :
    Item.units (line item q) = q.units := by
  unfold line
  split
  · next h => rw [h]; rfl
  · rfl

/-- Two orders that differ in nothing but the order of the lines that were packed, and the time of
the last change. -/
structure Order.Alike (o o' : Order) : Prop where
  packed : o.packed.Perm o'.packed
  same : o' = { o with packed := o'.packed, changedAt := o'.changedAt }

theorem Order.Alike.packedOf {o o' : Order} (h : o.Alike o') (i : String) :
    o.packedOf i = o'.packedOf i := Item.unitsOf_perm h.packed i

theorem Order.Alike.status {o o' : Order} (h : o.Alike o') : o.status = o'.status := by
  rw [h.same]

/-- The same lines, in whichever order they are packed, make orders that are alike. -/
theorem Order.Gains.alike {o o₁ o₂ : Order} {lines lines' : List Item} (h₁ : o.Gains lines o₁)
    (h₂ : o.Gains lines' o₂) (h : lines.Perm lines') : o₁.Alike o₂ := by
  have hstatus := (level_of_perm o h).status
  rw [← h₁.status, ← h₂.status] at hstatus
  refine ⟨?_, ?_⟩
  · rw [h₁.packed, h₂.packed]
    exact h.append_left _
  · rw [h₁.number, h₁.customer, h₁.items, h₁.placedAt, ← hstatus, ← h₂.number, ← h₂.customer,
      ← h₂.items, ← h₂.placedAt]

/-- What was done in two ways that come to the same, but for the order of lines and messages. -/
structure SameDone (l₁ : List Deed) (w₁ : World) (l₂ : List Deed) (w₂ : World) : Prop where
  stock : w₁.stock = w₂.stock
  keys : w₁.orders.keys = w₂.orders.keys
  orders : ∀ n o₁, w₁.orders.find? n = some o₁ → ∃ o₂, w₂.orders.find? n = some o₂ ∧
    (∀ i, o₁.packedOf i = o₂.packedOf i) ∧ o₁.status = o₂.status ∧ o₁.Alike o₂
  asked : ∃ rs₁ rs₂, List.Forall₂ Asks rs₁ (Deeds.sent l₁) ∧
    List.Forall₂ Asks rs₂ (Deeds.sent l₂) ∧ rs₁.Perm rs₂
  told : ∃ ts₁ ts₂, List.Forall₂ Tells ts₁ (Deeds.noted l₁) ∧
    List.Forall₂ Tells ts₂ (Deeds.noted l₂) ∧ ts₁.Perm ts₂

namespace Restocked

variable (hw₁ : w₁.Orderly m)
include hw₁

/-- No order is given more than it asks for. -/
theorem fits (h : Restocked items w l₁ w₁) {n : OrderNumber} {o : Order}
    (ho : w.orders.find? n = some o) :
    o.packedUnits + ((items.map fun i => w.portionLine i n).map Item.units).sum ≤
      o.requestedUnits := by
  obtain ⟨o₁, ho₁, hgains⟩ := h.logs.gains n o ho
  have hle := (hw₁.sound n o₁ ho₁).1.packedUnits_le
  have hlevel := hgains.level
  rwa [hlevel.packed, hlevel.requested, Order.logged_packedUnits, Order.logged_requestedUnits,
    Item.units_flatMap] at hle

theorem climb_perm (h : Restocked items w l₁ w₁) (hp : items.Perm items') (n : OrderNumber) :
    w.climb items n = w.climb items' n := by
  unfold World.climb
  cases ho : w.orders.find? n with
  | none => rfl
  | some o =>
    refine Order.climb_perm (hp.map _) (fun row hrow hne => ?_) (h.fits hw₁ ho)
    obtain ⟨i, -, rfl⟩ := List.mem_map.1 hrow
    unfold World.portionLine at hne ⊢
    rw [Coverage.units_line]
    exact Nat.pos_of_ne_zero (mt Coverage.line_eq_nil.2 hne)

theorem same (h₁ : Restocked items w l₁ w₁) (h₂ : Restocked items' w l₂ w₂)
    (hp : items.Perm items') : SameDone l₁ w₁ l₂ w₂ where
  stock := h₁.lost.unique (h₂.lost.congr fun i => by simp only [hp.mem_iff])
  keys := h₁.logs.keys.trans h₂.logs.keys.symm
  orders := by
    intro n o₁ ho₁
    obtain ⟨o, ho⟩ : ∃ o, w.orders.find? n = some o := by
      rw [← Option.ne_none_iff_exists', Ne, ← h₁.logs.find?_eq_none, ho₁]
      simp
    obtain ⟨o₁', ho₁', hg₁⟩ := h₁.logs.gains n o ho
    obtain rfl := Option.some.inj (ho₁.symm.trans ho₁')
    obtain ⟨o₂, ho₂, hg₂⟩ := h₂.logs.gains n o ho
    have halike := hg₁.alike hg₂ (hp.flatMap_right _)
    exact ⟨o₂, ho₂, halike.packedOf, halike.status, halike⟩
  asked := ⟨_, _, h₁.asked, h₂.asked, hp.flatMap_right _⟩
  told := by
    obtain ⟨ts₁, hts₁, hp₁⟩ := h₁.told
    obtain ⟨ts₂, hts₂, hp₂⟩ := h₂.told
    refine ⟨ts₁, ts₂, hts₁, hts₂, hp₁.trans (List.Perm.trans ?_ hp₂.symm)⟩
    rw [List.flatMap_congr fun n _ => by rw [h₁.climb_perm hw₁ hp n]]

end Restocked

namespace Engine

/-- **The order of the lines of an arrival makes no difference**, nor do its units, as long as the
store answers and sending works: whichever of two arrivals of the same items is handled, both
succeed and come to the same. -/
theorem arrival_reordered (e : Engine) (ops : List Operation)
    (hstore : (e.after ops).store.store.answers = true)
    (hup : (e.after ops).broker.isUp = true) (hfailing : (e.after ops).broker.failing = 0)
    {x y : Envelope} {lines lines' : List Item} (hx : x.event = .ok .itemAdded)
    (hlines : x.decode Item.linesReader = .ok lines) (hy : y.event = .ok .itemAdded)
    (hlines' : y.decode Item.linesReader = .ok lines')
    (hnames : ∀ name, (∃ i ∈ lines, i.name = name) ↔ ∃ i ∈ lines', i.name = name) :
    (e.handle x (e.after ops)).1 = [⟨restockKind, none⟩] ∧
      (e.handle y (e.after ops)).1 = [⟨restockKind, none⟩] ∧
      SameDone ((Operation.handle x).trail e (e.after ops)) (e.handled x (e.after ops))
        ((Operation.handle y).trail e (e.after ops)) (e.handled y (e.after ops)) := by
  have hw := World.orderly_after e ops
  have hflow : (e.after ops).Flowing := ⟨hup, hfailing, hw.records⟩
  generalize e.after ops = w at hw hstore hflow ⊢
  have hhandled : ∀ {z : Envelope} {l : List Item}, z.event = .ok .itemAdded →
      z.decode Item.linesReader = .ok l → (e.handle z w).1 = [⟨restockKind, none⟩] ∧
        (e.handled z w).Orderly e.menu ∧ Restocked (e.menu.stockedOf (Item.names l)) w
          ((Operation.handle z).trail e w) (e.handled z w) := by
    intro z l hz hl
    obtain ⟨deeds, res, w₁, ⟨rfl, hw₁, h⟩, htally, huntouched, hresult⟩ :=
      does_of_job (job_restock hz hl) fun d =>
        does_restockAll (c := e.coverage) d hw hstore hflow (Item.names_nodup l)
    exact ⟨hresult, hw₁.aside huntouched.aside, h.congr htally huntouched.aside⟩
  obtain ⟨hresult₁, hw₁, h₁⟩ := hhandled hx hlines
  obtain ⟨hresult₂, -, h₂⟩ := hhandled hy hlines'
  refine ⟨hresult₁, hresult₂, h₁.same hw₁ h₂ (List.Perm.filter _ ?_)⟩
  refine (List.perm_ext_iff_of_nodup (Item.names_nodup _) (Item.names_nodup _)).2 fun name => ?_
  rw [Item.mem_names, Item.mem_names]
  exact hnames name

/-- Fries and nuggets arrive, or nuggets and twice fries; there are not enough of either. -/
theorem arrival_reordered_nuggets :
    let ops : List Operation := [
      .place ⟨7⟩ [⟨"fries", Quantity.capped 3⟩, ⟨"nuggets", Quantity.capped 2⟩],
      .addInventory "fries" (Quantity.capped 2), .addInventory "nuggets" Quantity.one]
    let x := Envelope.arrival [⟨"fries", Quantity.one⟩, ⟨"nuggets", Quantity.one⟩]
    let y := Envelope.arrival [⟨"nuggets", Quantity.one⟩, ⟨"fries", Quantity.capped 5⟩,
      ⟨"fries", Quantity.one⟩]
    SameDone ((Operation.handle x).trail {} (after {} ops)) (handled {} x (after {} ops))
        ((Operation.handle y).trail {} (after {} ops)) (handled {} y (after {} ops)) ∧
      ((handled {} x (after {} ops)).orders.find? ⟨1⟩).map (·.packed) =
        some [⟨"fries", Quantity.capped 2⟩, ⟨"nuggets", Quantity.one⟩] ∧
      ((handled {} y (after {} ops)).orders.find? ⟨1⟩).map (·.packed) =
        some [⟨"nuggets", Quantity.one⟩, ⟨"fries", Quantity.capped 2⟩] := by
  intro ops x y
  have hlines : x.decode Item.linesReader =
      .ok [⟨"fries", Quantity.one⟩, ⟨"nuggets", Quantity.one⟩] := by decide +kernel
  have hlines' : y.decode Item.linesReader = .ok [⟨"nuggets", Quantity.one⟩,
      ⟨"fries", Quantity.capped 5⟩, ⟨"fries", Quantity.one⟩] := by decide +kernel
  have hnames : ∀ name, (∃ i ∈ ([⟨"fries", Quantity.one⟩, ⟨"nuggets", Quantity.one⟩] : List Item),
      i.name = name) ↔ ∃ i ∈ ([⟨"nuggets", Quantity.one⟩, ⟨"fries", Quantity.capped 5⟩,
        ⟨"fries", Quantity.one⟩] : List Item), i.name = name := by
    intro name
    simp
    tauto
  obtain ⟨-, -, hsame⟩ := arrival_reordered {} ops (by decide +kernel) (by decide +kernel)
    (by decide +kernel) (by decide +kernel) hlines (by decide +kernel) hlines' hnames
  exact ⟨hsame, by decide +kernel, by decide +kernel⟩

end Engine

end Takeaway
