import Takeaway.Menu
import Takeaway.Order.Basic
import Mathlib.Algebra.BigOperators.Group.Finset.Piecewise
import Mathlib.Algebra.Order.BigOperators.Group.Finset
import Mathlib.Algebra.Order.Ring.Nat

/-!
Orders that are sound: nothing is packed beyond what was asked for, and the status follows from
what is packed. Main statements: placing, packing what is missing and handing over keep an order
sound, and a sound order misses something exactly as long as it is open.
-/

namespace Takeaway

namespace Item

/-! ### Sums over names -/

theorem unitsOf_eq_zero {name : String} {l : List Item} (h : ∀ i ∈ l, i.name ≠ name) :
    unitsOf name l = 0 := by
  induction l with
  | nil => rfl
  | cons i r ih =>
    have hi : i.name ≠ name := h i (List.mem_cons_self ..)
    have hr := ih fun j hj => h j (List.mem_cons_of_mem _ hj)
    rw [unitsOf, if_neg hi, hr]

theorem unitsOf_pos {i : Item} {l : List Item} (h : i ∈ l) (hi : 0 < i.quantity.units) :
    0 < unitsOf i.name l := by
  induction l with
  | nil => simp at h
  | cons j r ih =>
    rw [unitsOf]
    rcases List.mem_cons.1 h with rfl | h
    · rw [if_pos rfl]; omega
    · have := ih h; omega

/-- All units of a row are the units of the names that occur in it, together. -/
theorem units_eq_sum {s : Finset String} {l : List Item} (h : ∀ i ∈ l, i.name ∈ s) :
    units l = ∑ n ∈ s, unitsOf n l := by
  induction l with
  | nil => simp [units, unitsOf]
  | cons i r ih =>
    have hi : i.name ∈ s := h i (List.mem_cons_self ..)
    simp only [units, unitsOf, Finset.sum_add_distrib, Finset.sum_ite_eq, if_pos hi]
    rw [ih fun j hj => h j (List.mem_cons_of_mem _ hj)]

/-- A row that holds of each name at most what another holds, and no other name, holds no more in
all, and as much only if it holds as much of each name. -/
theorem units_le_units {l₁ l₂ : List Item} (h : ∀ n, unitsOf n l₁ ≤ unitsOf n l₂)
    (hn : ∀ i ∈ l₁, ∃ j ∈ l₂, j.name = i.name) :
    units l₁ ≤ units l₂ ∧ (units l₁ = units l₂ ↔ ∀ n, unitsOf n l₁ = unitsOf n l₂) := by
  have h₁ : ∀ i ∈ l₁, i.name ∈ (l₂.map (·.name)).toFinset := by
    intro i hi
    obtain ⟨j, hj, hji⟩ := hn i hi
    rw [List.mem_toFinset, ← hji]
    exact List.mem_map_of_mem hj
  have h₂ : ∀ i ∈ l₂, i.name ∈ (l₂.map (·.name)).toFinset := fun i hi =>
    List.mem_toFinset.2 (List.mem_map_of_mem hi)
  rw [units_eq_sum h₁, units_eq_sum h₂]
  refine ⟨Finset.sum_le_sum fun n _ => h n, ?_⟩
  rw [Finset.sum_eq_sum_iff_of_le fun n _ => h n]
  refine ⟨fun heq n => ?_, fun heq n _ => heq n⟩
  by_cases hmem : n ∈ (l₂.map (·.name)).toFinset
  · exact heq n hmem
  · have h0 : unitsOf n l₂ = 0 := by
      refine unitsOf_eq_zero fun i hi hin => hmem ?_
      exact hin ▸ h₂ i hi
    have := h n
    omega

end Item

namespace Order

/-! ### Sound orders -/

/-- The status of an order that is not handed over yet. -/
def stage (o : Order) : Status :=
  if o.packedUnits = 0 then .requested
  else if o.packedUnits < o.requestedUnits then .inProgress
  else .ready

/-- Units of an item that the order asks for and that are not packed. -/
def short (o : Order) (name : String) : Nat := o.requestedOf name - o.packedOf name

/-- An order as it is accepted, and as packing no more than is missing leaves it. -/
structure Sound (m : Menu) (o : Order) : Prop where
  onMenu : ∀ i ∈ o.items, m.contains i.name = true
  nonempty : o.items ≠ []
  someRequested : ∀ i ∈ o.items, 0 < i.quantity.units
  somePacked : ∀ i ∈ o.packed, 0 < i.quantity.units
  fits : ∀ n, o.requestedOf n ≤ Quantity.largest
  within : ∀ n, o.packedOf n ≤ o.requestedOf n
  status : o.status = o.stage ∨ (o.status = .collected ∧ o.packedUnits = o.requestedUnits)

variable {m : Menu} {o : Order}

theorem requests_iff {n : String} : o.requests n = true ↔ ∃ i ∈ o.items, i.name = n := by
  simp [requests]

theorem requests_iff_mem_names {n : String} : o.requests n = true ↔ n ∈ o.names := by
  rw [requests_iff, names, Item.mem_names]

theorem missing?_ok {n : String} {k : Int} (h : o.missing? n = .ok k) :
    o.requests n = true ∧ k = o.missing n := by
  unfold missing? at h
  split at h <;> cases h
  exact ⟨‹_›, rfl⟩

theorem missing?_error {n : String} {r : Refusal} (h : o.missing? n = .error r) :
    o.requests n = false := by
  unfold missing? at h
  split at h <;> cases h
  exact Bool.eq_false_iff.2 ‹_›

theorem missing_names_nodup (o : Order) : (o.missingItems.map (·.name)).Nodup := by
  have heq : o.missingItems.map (·.name) = o.names.filter fun n => decide (0 < o.missing n) := by
    unfold missingItems
    rw [List.map_map]
    exact List.map_id' _
  rw [heq]
  exact (Item.names_nodup o.items).filter _

namespace Sound

theorem requests_iff_pos (h : o.Sound m) {n : String} :
    o.requests n = true ↔ 0 < o.requestedOf n := by
  rw [requests_iff]
  constructor
  · rintro ⟨i, hi, rfl⟩
    exact Item.unitsOf_pos hi (h.someRequested i hi)
  · intro hpos
    by_contra hno
    have : o.requestedOf n = 0 :=
      Item.unitsOf_eq_zero fun i hi hin => hno ⟨i, hi, hin⟩
    omega

/-- Nothing is packed that was not asked for. -/
theorem requests_of_mem_packed (h : o.Sound m) {i : Item} (hi : i ∈ o.packed) :
    o.requests i.name = true := by
  have hp : 0 < o.packedOf i.name := Item.unitsOf_pos hi (h.somePacked i hi)
  exact h.requests_iff_pos.2 (Nat.lt_of_lt_of_le hp (h.within i.name))

theorem requestedUnits_pos (h : o.Sound m) : 0 < o.requestedUnits := by
  obtain ⟨i, hi⟩ := List.exists_mem_of_ne_nil _ h.nonempty
  have hp := h.someRequested i hi
  unfold requestedUnits
  generalize o.items = l at hi
  induction l with
  | nil => simp at hi
  | cons j r ih =>
    rw [Item.units]
    rcases List.mem_cons.1 hi with rfl | hi
    · omega
    · have := ih hi; omega

theorem packedUnits_le (h : o.Sound m) : o.packedUnits ≤ o.requestedUnits :=
  (Item.units_le_units h.within fun _ hi => requests_iff.1 (h.requests_of_mem_packed hi)).1

/-- Everything is packed when everything is packed of each item. -/
theorem packedUnits_eq_iff (h : o.Sound m) :
    o.packedUnits = o.requestedUnits ↔ ∀ n, o.short n = 0 := by
  have := (Item.units_le_units h.within
    fun _ hi => requests_iff.1 (h.requests_of_mem_packed hi)).2
  refine this.trans (forall_congr' fun n => ?_)
  have := h.within n
  unfold short requestedOf packedOf at *
  omega

theorem missing_eq (h : o.Sound m) (n : String) : o.missing n = o.short n := by
  have := h.within n
  unfold missing short
  omega

theorem short_le (h : o.Sound m) (n : String) : o.short n ≤ Quantity.largest := by
  have := h.fits n
  unfold short
  omega

theorem requests_of_short (h : o.Sound m) {n : String} (hn : 0 < o.short n) :
    o.requests n = true := by
  rw [h.requests_iff_pos]
  unfold short at hn
  omega

/-! ### Status and missing units -/

theorem requested_iff (h : o.Sound m) : o.status = .requested ↔ o.packedUnits = 0 := by
  have := h.requestedUnits_pos
  rcases h.status with hs | ⟨hs, he⟩
  · rw [hs, stage]
    split
    · simp [*]
    · split <;> simp [*]
  · rw [hs]
    constructor
    · intro h; cases h
    · omega

theorem inProgress_iff (h : o.Sound m) :
    o.status = .inProgress ↔ 0 < o.packedUnits ∧ o.packedUnits < o.requestedUnits := by
  rcases h.status with hs | ⟨hs, he⟩
  · rw [hs, stage]
    split
    · simp [*]
    · split
      · simp only [true_iff]; omega
      · simp only [reduceCtorEq, false_iff]; omega
  · rw [hs]
    simp only [reduceCtorEq, false_iff]
    omega

theorem finished_iff (h : o.Sound m) :
    (o.status = .ready ∨ o.status = .collected) ↔ o.packedUnits = o.requestedUnits := by
  have hpos := h.requestedUnits_pos
  have hle := h.packedUnits_le
  rcases h.status with hs | ⟨hs, he⟩
  · rw [hs, stage]
    split
    · simp only [reduceCtorEq, or_self, false_iff]; omega
    · split
      · simp only [reduceCtorEq, or_self, false_iff]; omega
      · simp only [reduceCtorEq, or_false, true_iff]; omega
  · simp [hs, he]

theorem isOpen_iff (h : o.Sound m) :
    o.status.isOpen = true ↔ o.packedUnits ≠ o.requestedUnits := by
  rw [Ne, ← h.finished_iff]
  cases o.status <;> simp [Status.isOpen]

theorem isOpen_iff_short (h : o.Sound m) : o.status.isOpen = true ↔ ∃ n, 0 < o.short n := by
  rw [h.isOpen_iff, Ne, h.packedUnits_eq_iff, not_forall]
  simp only [Nat.pos_iff_ne_zero]

theorem short_eq_zero (h : o.Sound m) (hs : o.status.isOpen = false) (n : String) :
    o.short n = 0 := by
  by_contra hn
  have := h.isOpen_iff_short.2 ⟨n, Nat.pos_of_ne_zero hn⟩
  rw [hs] at this
  cases this

theorem mem_missingItems (h : o.Sound m) {n : String} :
    (∃ i ∈ o.missingItems, i.name = n) ↔ 0 < o.short n := by
  simp only [missingItems, List.mem_map, List.mem_filter, decide_eq_true_eq, h.missing_eq,
    Int.natCast_pos]
  constructor
  · rintro ⟨_, ⟨k, ⟨_, hk⟩, rfl⟩, rfl⟩
    exact hk
  · intro hn
    exact ⟨_, ⟨n, ⟨requests_iff_mem_names.1 (h.requests_of_short hn), hn⟩, rfl⟩, rfl⟩

theorem mem_missing_names (h : o.Sound m) {n : String} :
    n ∈ o.missingItems.map (·.name) ↔ 0 < o.short n := by
  rw [← h.mem_missingItems, List.mem_map]

theorem missingItems_eq_nil_iff (h : o.Sound m) :
    o.missingItems = [] ↔ o.packedUnits = o.requestedUnits := by
  rw [h.packedUnits_eq_iff, List.eq_nil_iff_forall_not_mem]
  constructor
  · intro hno n
    by_contra hn
    obtain ⟨i, hi, -⟩ := h.mem_missingItems.2 (Nat.pos_of_ne_zero hn)
    exact hno i hi
  · intro hz i hi
    have := h.mem_missingItems.1 ⟨i, hi, rfl⟩
    have := hz i.name
    omega

end Sound

/-! ### Packing -/

section Pack

variable (o : Order) (name : String) {q : Quantity}

/-- Packing some units logs them and sets the status anew. -/
theorem pack_of_pos (hq : 0 < q.units) :
    o.pack name q =
      { o with
        packed := o.packed ++ [⟨name, q⟩]
        status := ({ o with packed := o.packed ++ [⟨name, q⟩] } : Order).derivedStatus } := by
  have hq0 : ¬ q.units = 0 := by omega
  have hp : ¬ Item.units (o.packed ++ [⟨name, q⟩]) = 0 := by
    rw [Item.units_append]
    simp only [Item.units]
    omega
  unfold pack packedUnits
  simp only [if_neg hq0]
  rw [if_neg hp]

variable (q) in
@[simp] theorem pack_items : (o.pack name q).items = o.items := by
  unfold pack
  split <;> dsimp only <;> split <;> rfl

variable (q) in
@[simp] theorem pack_number : (o.pack name q).number = o.number := by
  unfold pack
  split <;> dsimp only <;> split <;> rfl

theorem pack_packed (hq : 0 < q.units) : (o.pack name q).packed = o.packed ++ [⟨name, q⟩] := by
  rw [pack_of_pos o name hq]

variable (q) in
@[simp] theorem requestedOf_pack (n : String) : (o.pack name q).requestedOf n = o.requestedOf n := by
  unfold requestedOf
  rw [pack_items]

variable (q) in
theorem packedOf_pack (n : String) :
    (o.pack name q).packedOf n = o.packedOf n + if name = n then q.units else 0 := by
  by_cases hq : 0 < q.units
  · unfold packedOf
    rw [pack_packed o name hq, Item.unitsOf_append]
    simp [Item.unitsOf]
  · have h0 : q.units = 0 := by omega
    have : (o.pack name q).packed = o.packed := by
      unfold pack
      simp only [if_pos h0]
      split <;> rfl
    unfold packedOf
    rw [this]
    split <;> omega

end Pack

/-- The status that is set when something is packed is the one that is due, unless too much is
packed. -/
theorem derivedStatus_eq_stage (h0 : o.packedUnits ≠ 0) (hle : o.packedUnits ≤ o.requestedUnits) :
    o.derivedStatus = o.stage := by
  unfold derivedStatus stage
  rw [if_neg h0]
  split
  · rfl
  · rw [if_pos (by omega)]

/-! ### What keeps an order sound -/

namespace Sound

theorem touch (h : o.Sound m) (time : Timestamp) : (o.touch time).Sound m :=
  ⟨h.onMenu, h.nonempty, h.someRequested, h.somePacked, h.fits, h.within, h.status⟩

theorem place {items : List Item} (hne : items ≠ [])
    (hi : ∀ i ∈ items, m.contains i.name = true ∧ 0 < i.quantity.units)
    (ht : ∀ n, Item.unitsOf n items ≤ Quantity.largest) (number : OrderNumber)
    (customer : CustomerId) (time : Timestamp) :
    (Order.place number customer items time).Sound m where
  onMenu i hmem := (hi i hmem).1
  nonempty := hne
  someRequested i hmem := (hi i hmem).2
  somePacked i hmem := by cases hmem
  fits := ht
  within _ := Nat.zero_le _
  status := .inl rfl

/-- Packing what is missing, or less, keeps an order sound. -/
theorem pack (h : o.Sound m) {name : String} {q : Quantity} (hq : 0 < q.units)
    (hle : q.units ≤ o.short name) : (o.pack name q).Sound m := by
  have hbound : ∀ n, (o.pack name q).packedOf n ≤ o.requestedOf n := by
    intro n
    rw [packedOf_pack]
    have := h.within n
    split
    · next hn =>
      subst hn
      unfold short at hle
      omega
    · omega
  have hpacked : ∀ i ∈ (o.pack name q).packed, 0 < i.quantity.units := by
    intro i hi
    rw [pack_packed o name hq] at hi
    rcases List.mem_append.1 hi with hi | hi
    · exact h.somePacked i hi
    · rw [List.mem_singleton.1 hi]; exact hq
  -- the status is read off totals, which are bounded since every name is
  have htotal : Item.units (o.packed ++ [⟨name, q⟩]) ≤ o.requestedUnits := by
    rw [← pack_packed o name hq]
    refine (Item.units_le_units hbound fun i hi => ?_).1
    have hpos : 0 < (o.pack name q).packedOf i.name := Item.unitsOf_pos hi (hpacked i hi)
    exact requests_iff.1 (h.requests_iff_pos.2 (Nat.lt_of_lt_of_le hpos (hbound i.name)))
  refine ⟨?_, ?_, ?_, hpacked, ?_, ?_, .inl ?_⟩
  · rw [pack_items]; exact h.onMenu
  · rw [pack_items]; exact h.nonempty
  · rw [pack_items]; exact h.someRequested
  · intro n; rw [requestedOf_pack]; exact h.fits n
  · intro n; rw [requestedOf_pack]; exact hbound n
  · have hpos : Item.units (o.packed ++ [⟨name, q⟩]) ≠ 0 := by
      rw [Item.units_append]
      simp only [Item.units]
      omega
    rw [pack_of_pos o name hq]
    exact derivedStatus_eq_stage hpos htotal

/-- Handing over keeps an order sound, and packs nothing. -/
theorem collect (h : o.Sound m) {new : Order} (hc : o.collect = .ok new) :
    new.Sound m ∧ new.number = o.number ∧ new.items = o.items ∧ new.packed = o.packed := by
  unfold Order.collect at hc
  split at hc
  · next hs =>
    cases hc
    have := h.finished_iff.1 (.inl hs)
    exact ⟨⟨h.onMenu, h.nonempty, h.someRequested, h.somePacked, h.fits, h.within,
      .inr ⟨rfl, this⟩⟩, rfl, rfl, rfl⟩
  · cases hc
    exact ⟨h, rfl, rfl, rfl⟩
  · cases hc

end Sound

end Order

end Takeaway
