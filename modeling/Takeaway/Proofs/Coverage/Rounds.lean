import Takeaway.Proofs.Cover

/-!
Orders that are packed one after the other from one stock. Main statements: it does not matter
whether an order is packed with all that it asks for or with what it misses; each order is given
what the ones before it left; and what the kitchen is to be asked for adds up to what is missing in
all beyond what is in stock.
-/

namespace Takeaway.Coverage

variable {m : Menu} {o : Order} {os : List Order} {i : String}

/-- An order and what packing it came to. -/
structure Serving where
  order : Order
  filling : Filling

namespace Serving

/-- What is written: the order, if anything was packed. -/
def saves (v : Serving) : List Order :=
  if v.filling.packed = [] then [] else [v.filling.order]

/-- What is told: the new status, if it is another one. -/
def news (v : Serving) : List (OrderNumber × Status) :=
  if v.filling.order.status = v.order.status then []
  else [(v.order.number, v.filling.order.status)]

/-- What the kitchen is to be asked for. -/
def asks (v : Serving) : List (OrderNumber × Item) :=
  v.filling.requests.map fun i => (v.order.number, i)

/-- The lines that are packed for the order of a number. -/
def linesFor (n : OrderNumber) (v : Serving) : List Item :=
  if v.order.number = n then v.filling.packed else []

/-- What is reported. -/
def outcome (v : Serving) : Outcome :=
  ⟨v.order.number, v.filling.packed, v.filling.requests, v.filling.order.status,
    v.filling.order.status != v.order.status⟩

end Serving

/-- Nothing is packed for an order that is not among them. -/
theorem flatMap_linesFor_of_ne {vs : List Serving} {n : OrderNumber}
    (h : ∀ v ∈ vs, v.order.number ≠ n) : vs.flatMap (Serving.linesFor n) = [] :=
  List.flatMap_eq_nil_iff.2 fun v hv => if_neg (h v hv)

/-- Where all orders have numbers of their own, each has its own lines. -/
theorem flatMap_linesFor {vs : List Serving} (hnodup : (vs.map fun v => v.order.number).Nodup)
    {v : Serving} (hv : v ∈ vs) : vs.flatMap (Serving.linesFor v.order.number) =
      v.filling.packed := by
  induction vs with
  | nil => cases hv
  | cons x r ih =>
    obtain ⟨hx, hr⟩ := List.nodup_cons.1 hnodup
    have hne : ∀ y ∈ r, y.order.number ≠ x.order.number := fun y hy heq =>
      hx (List.mem_map.2 ⟨y, hy, heq⟩)
    rw [List.flatMap_cons]
    rcases List.mem_cons.1 hv with rfl | hv
    · rw [flatMap_linesFor_of_ne hne, List.append_nil]
      exact if_pos rfl
    · rw [ih hr hv]
      have hskip : Serving.linesFor v.order.number x = [] := if_neg (Ne.symm (hne v hv))
      rw [hskip, List.nil_append]

/-- Packs the orders one after the other from one stock, each with all that it asks for. -/
def servings (m : Menu) : List Order → Stock → List Serving
  | [], _ => []
  | o :: r, s => ⟨o, filled m o.names o s⟩ :: servings m r (filled m o.names o s).stock

/-- The stock that is left when the orders are packed one after the other. -/
def emptied (m : Menu) : List Order → Stock → Stock
  | [], s => s
  | o :: r, s => emptied m r (filled m o.names o s).stock

/-- Units of an item that an order misses of which so many are in stock, as far as it is given
them. -/
def due (m : Menu) (left : Nat) (o : Order) (item : String) : Nat :=
  if m.isInstant item = .ok true then o.short item else min left (o.short item)

/-! ### One order -/

/-- Lines of no units are no lines. -/
theorem flatMap_filter_lines {p : String → Bool} {q : String → Quantity} {items : List String}
    (h : ∀ i ∈ items, p i = false → (q i).units = 0) :
    ((items.filter p).flatMap fun i => line i (q i)) = items.flatMap fun i => line i (q i) := by
  induction items with
  | nil => rfl
  | cons item r ih =>
    obtain ⟨hitem, hr⟩ := List.forall_mem_cons.1 h
    rw [List.filter_cons, List.flatMap_cons, ← ih hr]
    by_cases hp : p item = true
    · rw [if_pos hp, List.flatMap_cons]
    · rw [if_neg hp, line_eq_nil.2 (hitem (Bool.eq_false_iff.2 hp)), List.nil_append]

/-- **An order is packed alike with all that it asks for and with what it misses.** -/
theorem filled_missing (ho : o.Sound m) (s : Stock) :
    filled m (o.missingItems.map (·.name)) o s = filled m o.names o s := by
  have hmissing : o.missingItems.map (·.name) =
      o.names.filter fun i => decide (0 < o.missing i) := by
    unfold Order.missingItems
    rw [List.map_map]
    exact List.map_id' _
  -- of an item that is not missing nothing is taken and nothing is asked for
  have hnone : ∀ i, decide (0 < o.missing i) = false →
      (share m o s i).taken.units = 0 ∧ (share m o s i).shortfall.units = 0 := by
    intro i hi
    apply share_of_none
    rw [ho.missing_eq] at hi
    simpa using hi
  obtain ⟨hpacked, hrequests⟩ := filled_exact m o.missing_names_nodup o s
  obtain ⟨hpacked', hrequests'⟩ := filled_exact m (Item.names_nodup o.items) o s
  have hsame : (filled m (o.missingItems.map (·.name)) o s).packed =
      (filled m o.names o s).packed := by
    rw [hpacked, hmissing, flatMap_filter_lines fun i _ hi => (hnone i hi).1]
    exact hpacked'.symm
  have hasked : (filled m (o.missingItems.map (·.name)) o s).requests =
      (filled m o.names o s).requests := by
    rw [hrequests, hmissing, flatMap_filter_lines fun i _ hi => (hnone i hi).2]
    exact hrequests'.symm
  have horder : (filled m (o.missingItems.map (·.name)) o s).order =
      (filled m o.names o s).order := by
    rw [filled_order, filled_order, hsame]
  have hstock : (filled m (o.missingItems.map (·.name)) o s).stock =
      (filled m o.names o s).stock := by
    refine Stock.Lost.unique ((lost_filled m _ o s).congr fun i => ?_) (lost_filled m o.names o s)
    rw [hsame]
  exact Filling.mk.injEq .. ▸ ⟨horder, hsame, hasked, hstock⟩

theorem short_eq_zero_of_not_mem (ho : o.Sound m) (hi : i ∉ o.names) : o.short i = 0 := by
  by_contra h
  exact hi (Order.requests_iff_mem_names.1 (ho.requests_of_short (Nat.pos_of_ne_zero h)))

/-- What an order is given of each item, and what the kitchen is to be asked for. -/
theorem amounts_filled (ho : o.Sound m) (s : Stock) :
    Item.amounts (filled m o.names o s).packed =
        ((o.names.map fun i => (i, due m (s.onHand i).units o i)).filter fun a =>
          decide (0 < a.2)) ∧
      Item.amounts (filled m o.names o s).requests =
        (o.names.map fun i => (i, o.short i - due m (s.onHand i).units o i)).filter fun a =>
          decide (0 < a.2) := by
  have hnames : o.names.Nodup := Item.names_nodup o.items
  obtain ⟨hpacked, hrequests⟩ := filled_exact m hnames o s
  have hdue : ∀ i, (share m o s i).taken.units = due m (s.onHand i).units o i := fun i =>
    (share_units ho s i).1
  constructor
  · rw [hpacked, amounts_lines]
    simp only [hdue]
  · rw [hrequests, amounts_lines]
    simp only [(share_units ho s _).2, hdue]

theorem unitsOf_packed (ho : o.Sound m) (s : Stock) (i : String) :
    Item.unitsOf i (filled m o.names o s).packed = due m (s.onHand i).units o i := by
  have hnames : o.names.Nodup := Item.names_nodup o.items
  obtain ⟨hpacked, -⟩ := filled_exact m hnames o s
  rw [hpacked, unitsOf_lines hnames, (share_units ho s i).1]
  split
  · rfl
  · next hi =>
    unfold due
    rw [short_eq_zero_of_not_mem ho hi, Nat.min_zero, ite_self]

theorem unitsOf_requests (ho : o.Sound m) (s : Stock) (i : String) :
    Item.unitsOf i (filled m o.names o s).requests =
      o.short i - due m (s.onHand i).units o i := by
  have hnames : o.names.Nodup := Item.names_nodup o.items
  obtain ⟨-, hrequests⟩ := filled_exact m hnames o s
  rw [hrequests, unitsOf_lines hnames, (share_units ho s i).2, (share_units ho s i).1]
  split
  · rfl
  · next hi =>
    rw [short_eq_zero_of_not_mem ho hi]
    omega

/-- An order takes what it misses, as far as it is there, of an item that is kept in stock. -/
theorem onHand_filled (ho : o.Sound m) (s : Stock) (hi : m.isInstant i ≠ .ok true) :
    ((filled m o.names o s).stock.onHand i).units = (s.onHand i).units - o.short i := by
  have hlost := (lost_filled m o.names o s).onHand i
  rw [if_neg hi, unitsOf_packed ho] at hlost
  unfold due at hlost
  rw [if_neg hi] at hlost
  omega

/-! ### Several orders -/

variable (hos : ∀ o ∈ os, o.Sound m)
include hos

/-- **Orders take what they miss, as far as it is there.** -/
theorem onHand_emptied (s : Stock) (hi : m.isInstant i ≠ .ok true) :
    ((emptied m os s).onHand i).units =
      (s.onHand i).units - (os.map fun o => o.short i).sum := by
  induction os generalizing s with
  | nil => rfl
  | cons o r ih =>
    obtain ⟨ho, hr⟩ := List.forall_mem_cons.1 hos
    unfold emptied
    rw [ih hr, onHand_filled ho s hi, List.map_cons, List.sum_cons]
    omega

/-- **What the kitchen is to be asked for is what is missing in all beyond what is there.** -/
theorem unitsOf_servings (s : Stock) (hi : m.isInstant i ≠ .ok true) :
    Item.unitsOf i (((servings m os s).flatMap (·.asks)).map (·.2)) =
      (os.map fun o => o.short i).sum - (s.onHand i).units := by
  induction os generalizing s with
  | nil => exact (Nat.zero_sub _).symm
  | cons o r ih =>
    obtain ⟨ho, hr⟩ := List.forall_mem_cons.1 hos
    have hasks : (Serving.asks ⟨o, filled m o.names o s⟩).map (·.2) =
        (filled m o.names o s).requests := by
      unfold Serving.asks
      rw [List.map_map]
      exact List.map_id' _
    unfold servings
    rw [List.flatMap_cons, List.map_append, hasks, Item.unitsOf_append, ih hr,
      onHand_filled ho s hi, unitsOf_requests ho, List.map_cons, List.sum_cons]
    unfold due
    rw [if_neg hi]
    omega

omit hos

theorem map_order_servings (m : Menu) (os : List Order) (s : Stock) :
    (servings m os s).map (·.order) = os := by
  induction os generalizing s with
  | nil => rfl
  | cons o r ih => exact congrArg _ (ih _)

theorem emptied_append (front behind : List Order) (s : Stock) :
    emptied m (front ++ behind) s = emptied m behind (emptied m front s) := by
  induction front generalizing s with
  | nil => rfl
  | cons o r ih => exact ih _

/-- **Each order is packed from the stock that the orders before it left.** -/
theorem servings_append (front behind : List Order) (s : Stock) :
    servings m (front ++ behind) s =
      servings m front s ++ servings m behind (emptied m front s) := by
  induction front generalizing s with
  | nil => rfl
  | cons o r ih => exact congrArg _ (ih _)

end Takeaway.Coverage
