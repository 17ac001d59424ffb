import Takeaway.Proofs.Order.Logged

/-!
What is missing of an order, whatever was asked for and packed. Main statement: the row of missing
items names exactly the items of which more was asked for than is packed, in the order in which
they were asked for first, with what they are short of; nothing in it passes 64 binary digits; and
whoever packs the row has an order of which nothing is missing.
-/

namespace Takeaway

namespace Item

variable {l : List Item}

/-! ### Sums that fit -/

theorem unitsOf_le_units (name : String) (l : List Item) : unitsOf name l ≤ units l := by
  induction l with
  | nil => exact Nat.le_refl 0
  | cons i r ih =>
    unfold unitsOf units
    split <;> omega

theorem units_le_length (l : List Item) : units l ≤ l.length * Quantity.largest := by
  induction l with
  | nil => exact Nat.zero_le _
  | cons i r ih =>
    have hi : i.quantity.units ≤ Quantity.largest := i.quantity.fits
    rw [units, List.length_cons, Nat.succ_mul]
    omega

/-- In a row of fewer than 2^31 lines no sum needs more than 63 binary digits, neither the sum over
all lines nor that of one name, however far the row was summed up. -/
theorem sums_lt (h : l.length < 2 ^ 31) (name : String) (k : Nat) :
    units (l.take k) < 2 ^ 63 ∧ unitsOf name (l.take k) < 2 ^ 63 := by
  have hsum := units_le_length (l.take k)
  have hname := unitsOf_le_units name (l.take k)
  have hlength : (l.take k).length ≤ l.length := List.length_take_le' ..
  unfold Quantity.largest at hsum
  omega

/-! ### Names in their order -/

/-- The names of a row come in the order of their first lines, and so each comes once. -/
theorem names_inOrder (l : List Item) : (names l).Pairwise fun a b =>
    (l.map (·.name)).idxOf a < (l.map (·.name)).idxOf b := by
  induction l with
  | nil => exact List.Pairwise.nil
  | cons i r ih =>
    have hlater : ∀ n ∈ (names r).filter (fun n => n != i.name),
        ((i :: r).map (·.name)).idxOf n = (r.map (·.name)).idxOf n + 1 := by
      intro n hn
      have hne : i.name ≠ n := fun h => by simp [h] at hn
      rw [List.map_cons, List.idxOf_cons_ne _ hne]
    rw [names, List.pairwise_cons]
    constructor
    · intro n hn
      rw [hlater n hn, List.map_cons, List.idxOf_cons_self]
      exact Nat.succ_pos _
    · refine (ih.filter _).imp_of_mem fun ha hb hab => ?_
      rw [hlater _ ha, hlater _ hb]
      omega

/-- Of a row that has one line for each of some names, each line is all that it holds of the
name. -/
theorem unitsOf_each {ns : List String} (h : ns.Nodup) (q : String → Quantity) (name : String) :
    unitsOf name (ns.map fun n => ⟨n, q n⟩) = if name ∈ ns then (q name).units else 0 := by
  induction ns with
  | nil => rfl
  | cons n ns ih =>
    obtain ⟨hn, hns⟩ := List.nodup_cons.1 h
    rw [List.map_cons, unitsOf, ih hns]
    by_cases heq : n = name
    · subst heq
      rw [if_pos rfl, if_neg hn, if_pos (List.mem_cons_self ..), Nat.add_zero]
    · have hiff : name ∈ n :: ns ↔ name ∈ ns := by simp [Ne.symm heq]
      simp only [if_neg heq, hiff, Nat.zero_add]

end Item

namespace Order

variable {o : Order}

/-! ### The row of missing items -/

theorem missing_pos {n : String} : 0 < o.missing n ↔ o.packedOf n < o.requestedOf n := by
  unfold missing
  omega

theorem missing_toNat (o : Order) (n : String) : (o.missing n).toNat = o.short n := by
  unfold missing short
  omega

/-- What is asked for of an item is asked for by its name. -/
theorem requests_of_packed_lt {n : String} (h : o.packedOf n < o.requestedOf n) :
    o.requests n = true := by
  rw [requests_iff]
  by_contra hno
  have hzero : o.requestedOf n = 0 := Item.unitsOf_eq_zero fun i hi hin => hno ⟨i, hi, hin⟩
  omega

/-- The names of which something is missing. -/
def missingNames (o : Order) : List String := o.names.filter fun n => decide (0 < o.missing n)

theorem missingItems_eq (o : Order) :
    o.missingItems = o.missingNames.map fun n => ⟨n, Quantity.capped (o.short n)⟩ := by
  unfold missingItems missingNames
  simp only [missing_toNat]

theorem mem_missingNames {n : String} :
    n ∈ o.missingNames ↔ o.requests n = true ∧ o.packedOf n < o.requestedOf n := by
  unfold missingNames
  rw [List.mem_filter, decide_eq_true_eq, missing_pos, requests_iff_mem_names]

/-- **The row of missing items** has a line exactly for the names of which more is asked for than is
packed, with what is short of it, as far as a quantity holds that. -/
theorem mem_missingItems_iff {i : Item} :
    i ∈ o.missingItems ↔ o.requests i.name = true ∧ o.packedOf i.name < o.requestedOf i.name ∧
      i.quantity.units = min (o.requestedOf i.name - o.packedOf i.name) Quantity.largest := by
  rw [missingItems_eq, List.mem_map]
  constructor
  · rintro ⟨n, hn, rfl⟩
    obtain ⟨hreq, hlt⟩ := mem_missingNames.1 hn
    exact ⟨hreq, hlt, rfl⟩
  · rintro ⟨hreq, hlt, hunits⟩
    refine ⟨i.name, mem_missingNames.2 ⟨hreq, hlt⟩, ?_⟩
    obtain ⟨name, q⟩ := i
    exact congrArg _ (Quantity.ext hunits.symm)

theorem missingItems_inOrder (o : Order) : (o.missingItems.map (·.name)).Pairwise fun a b =>
    (o.items.map (·.name)).idxOf a < (o.items.map (·.name)).idxOf b := by
  rw [missingItems_eq, List.map_map]
  refine List.Pairwise.map _ (fun _ _ h => h) ?_
  exact (Item.names_inOrder o.items).filter _

theorem unitsOf_missingItems (o : Order) (n : String) :
    Item.unitsOf n o.missingItems = min (o.short n) Quantity.largest := by
  have hnodup : o.missingNames.Nodup := (Item.names_nodup o.items).filter _
  rw [missingItems_eq, Item.unitsOf_each hnodup]
  split
  · rfl
  · next hn =>
    have hnone : ¬ o.packedOf n < o.requestedOf n := fun hlt =>
      hn (mem_missingNames.2 ⟨requests_of_packed_lt hlt, hlt⟩)
    unfold short
    omega

theorem missingItems_eq_nil (h : ∀ n, o.requestedOf n ≤ o.packedOf n) : o.missingItems = [] := by
  refine List.eq_nil_iff_forall_not_mem.2 fun i hi => ?_
  obtain ⟨-, hlt, -⟩ := mem_missingItems_iff.1 hi
  have := h i.name
  omega

theorem missingItems_pos {i : Item} (hi : i ∈ o.missingItems) : 0 < i.quantity.units := by
  obtain ⟨-, hlt, hunits⟩ := mem_missingItems_iff.1 hi
  unfold Quantity.largest at hunits
  omega

/-! ### Packing a row -/

/-- The order after each line of a row was packed. -/
def packAll (o : Order) (lines : List Item) : Order :=
  lines.foldl (fun o i => o.pack i.name i.quantity) o

/-- Packing lines of some units each, one after the other, is to log them. -/
theorem packAll_eq_logged {lines : List Item} (h : ∀ i ∈ lines, 0 < i.quantity.units) (o : Order) :
    o.packAll lines = o.logged lines := by
  induction lines generalizing o with
  | nil => rfl
  | cons i r ih =>
    obtain ⟨hi, hr⟩ := List.forall_mem_cons.1 h
    calc o.packAll (i :: r) = (o.pack i.name i.quantity).packAll r := rfl
      _ = (o.logged [i]).logged r := by rw [ih hr, pack_eq_logged o i.name hi]
      _ = o.logged (i :: r) := logged_logged o [i] r

/-- The order after the row of what is missing of it was packed. -/
def packedUp (o : Order) : Order := o.packAll o.missingItems

theorem packedUp_eq (o : Order) : o.packedUp = o.logged o.missingItems :=
  packAll_eq_logged (fun _ hi => missingItems_pos hi) o

/-- An order can be filled up: it has packed nothing that it does not ask for and nothing beyond
that, and what is short of an item is a quantity. -/
structure Fillable (o : Order) : Prop where
  named : ∀ i ∈ o.packed, o.requests i.name = true
  within : ∀ n, o.packedOf n ≤ o.requestedOf n
  fits : ∀ n, o.missing n ≤ Quantity.largest

namespace Fillable

variable (h : o.Fillable)
include h

/-- What is short of each item is what its line in the row says. -/
theorem packedOf_packedUp (n : String) : o.packedUp.packedOf n = o.packedUp.requestedOf n := by
  have hwithin := h.within n
  have hfits := h.fits n
  unfold missing at hfits
  rw [packedUp_eq, logged_packedOf, unitsOf_missingItems]
  unfold short requestedOf at *
  rw [logged_items]
  omega

/-- **Nothing is missing any more.** -/
theorem missingItems_packedUp : o.packedUp.missingItems = [] :=
  missingItems_eq_nil fun n => (h.packedOf_packedUp n).ge

/-- The totals agree, since they do for each name and no other names were packed. -/
theorem packedUnits_packedUp : o.packedUp.packedUnits = o.packedUp.requestedUnits := by
  refine (Item.units_le_units (fun n => (h.packedOf_packedUp n).le) fun i hi => ?_).2.2
    h.packedOf_packedUp
  rw [packedUp_eq, logged_packed, List.mem_append] at hi
  rw [packedUp_eq, logged_items]
  refine requests_iff.1 ?_
  rcases hi with hi | hi
  · exact h.named i hi
  · exact (mem_missingItems_iff.1 hi).1

/-- **The order is ready**, if there was anything to pack. -/
theorem status_packedUp (hne : o.missingItems ≠ []) : o.packedUp.status = .ready := by
  have hstatus : o.packedUp.status = o.packedUp.derivedStatus := by
    rw [packedUp_eq, logged_of_ne_nil o hne]
    rfl
  have htotal := h.packedUnits_packedUp
  rw [hstatus]
  unfold derivedStatus
  rw [if_neg (by omega), if_pos htotal]

end Fillable

/-! ### Main statement -/

/-- **The row of missing items is exact and enough.** Of every order, as long as it has fewer than
2^31 lines of each kind: no sum passes 63 binary digits and no difference 64; the row names exactly
the items of which more is asked for than is packed, in the order in which they were asked for
first, with what is short of them; and if the order can be filled up, packing the row leaves
nothing missing, and the order ready if there was anything in the row. -/
theorem missing_exact (o : Order) (hitems : o.items.length < 2 ^ 31)
    (hpacked : o.packed.length < 2 ^ 31) :
    (∀ n k, Item.unitsOf n (o.items.take k) < 2 ^ 63 ∧ Item.unitsOf n (o.packed.take k) < 2 ^ 63 ∧
      Item.units (o.items.take k) < 2 ^ 63 ∧ Item.units (o.packed.take k) < 2 ^ 63) ∧
    (∀ n, -(2 ^ 63) < o.missing n ∧ o.missing n < 2 ^ 63) ∧
    (∀ i, i ∈ o.missingItems ↔
      o.requests i.name = true ∧ o.packedOf i.name < o.requestedOf i.name ∧
        i.quantity.units = min (o.requestedOf i.name - o.packedOf i.name) Quantity.largest) ∧
    (o.missingItems.map (·.name)).Pairwise (fun a b =>
      (o.items.map (·.name)).idxOf a < (o.items.map (·.name)).idxOf b) ∧
    (o.Fillable → o.packedUp.missingItems = [] ∧
      (o.missingItems ≠ [] → o.packedUp.status = .ready)) := by
  have hasked := fun n k => Item.sums_lt hitems n k
  have hlogged := fun n k => Item.sums_lt hpacked n k
  refine ⟨fun n k => ⟨(hasked n k).2, (hlogged n k).2, (hasked n k).1, (hlogged n k).1⟩,
    fun n => ?_, fun i => mem_missingItems_iff, o.missingItems_inOrder,
    fun h => ⟨h.missingItems_packedUp, h.status_packedUp⟩⟩
  have hrequestedOf := (hasked n o.items.length).2
  have hpackedOf := (hlogged n o.packed.length).2
  rw [List.take_length] at hrequestedOf hpackedOf
  unfold missing requestedOf packedOf
  omega

/-- A collected order with two lines of burgers that come to more than a quantity, too much soda,
and a pizza that it does not ask for; and an order in progress that can be filled up. -/
theorem missing_exact_extremes :
    let time := Timestamp.ofMillis 0
    let most : Quantity := ⟨4294967295, by decide⟩
    let odd : Order := ⟨⟨1⟩, ⟨7⟩, [⟨"burger", most⟩, ⟨"soda", .one⟩, ⟨"fries", .one⟩,
      ⟨"burger", .one⟩], [⟨"soda", ⟨3, by decide⟩⟩, ⟨"pizza", .one⟩], .collected, time, time⟩
    let begun : Order := ⟨⟨2⟩, ⟨7⟩, [⟨"fries", .one⟩, ⟨"soda", .one⟩, ⟨"fries", .one⟩],
      [⟨"fries", .one⟩], .inProgress, time, time⟩
    odd.missingItems = [⟨"burger", most⟩, ⟨"fries", .one⟩] ∧ odd.missing "burger" = 4294967296 ∧
      odd.missing "burger" < 2 ^ 63 ∧ begun.packedUp.missingItems = [] ∧
        begun.packedUp.status = .ready := by
  intro time most odd begun
  have hbegun : begun.Fillable := by
    refine ⟨by decide, fun n => ?_, fun n => ?_⟩ <;>
      simp only [begun, missing, packedOf, requestedOf, Item.unitsOf, Quantity.one,
        Quantity.largest] <;>
      split <;> split <;> omega
  obtain ⟨-, hfits, -⟩ := missing_exact odd (by decide) (by decide)
  obtain ⟨-, -, -, -, hfilled⟩ := missing_exact begun (by decide) (by decide)
  obtain ⟨hnone, hready⟩ := hfilled hbegun
  exact ⟨by decide +kernel, by decide +kernel, (hfits "burger").2, hnone,
    hready (by decide +kernel)⟩

end Order

end Takeaway
