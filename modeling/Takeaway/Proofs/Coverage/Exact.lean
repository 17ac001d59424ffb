import Takeaway.Proofs.Coverage.Fill
import Takeaway.Proofs.Order.Logged

/-!
Packing an order in closed form. Main statements: of items that are named once each, what is packed
and what is asked of the kitchen is, for every item, the part of what the order misses that there is
and the rest of it, in the order of the items; packing logs just that, and leaves the stock without
the units of those items that are not handed out at once.
-/

namespace Takeaway.Coverage

variable {m : Menu} {o o' : Order} {s s' : Stock} {item i : String} {items : List String}

/-- How the need of an order for an item is met when it is the next to be packed. -/
def share (m : Menu) (o : Order) (s : Stock) (item : String) : Allocation :=
  met m s item (Quantity.capped (o.short item))

/-! ### One item -/

/-- How a need is met is up to the count of the one item. -/
theorem share_congr (ho : o'.short i = o.short i) (hs : s'.onHand i = s.onHand i) :
    share m o' s' i = share m o s i := by
  unfold share met
  rw [ho, hs]

theorem share_of_none (h : o.short item = 0) :
    (share m o s item).taken.units = 0 ∧ (share m o s item).shortfall.units = 0 := by
  have hadd := met_add m s item (Quantity.capped (o.short item))
  rw [h] at hadd
  have hzero : (Quantity.capped 0).units = 0 := rfl
  unfold share
  rw [h]
  omega

/-- What packing one item comes to, whether any of it is missing or not. -/
theorem served_eq (m : Menu) (item : String) (o : Order) (s : Stock) :
    served m item o s =
      ⟨o.logged (line item (share m o s item).taken), line item (share m o s item).taken,
        line item (share m o s item).shortfall,
        drawn m s item (Quantity.capped (o.short item))⟩ := by
  unfold served
  by_cases h0 : o.short item = 0
  · obtain ⟨htaken, hshortfall⟩ := share_of_none (m := m) (s := s) h0
    rw [if_pos h0, line_eq_nil.2 htaken, line_eq_nil.2 hshortfall, drawn_of_none htaken]
    rfl
  · rw [if_neg h0]
    show Filling.mk (if (share m o s item).taken.units = 0 then o
      else o.pack item (share m o s item).taken) _ _ _ = _
    congr 1
    unfold line
    split
    · rfl
    · next hq => exact Order.pack_eq_logged o item (Nat.pos_of_ne_zero hq)

/-- What is not handed out at once is taken out of the stock, as far as that goes. -/
theorem met_of_not_instant (hb : m.isInstant item ≠ .ok true) (needed : Quantity) :
    (met m s item needed).taken = (s.onHand item).least needed ∧
      drawn m s item needed = s.without item ((s.onHand item).least needed) := by
  unfold met drawn
  split
  · next h => exact absurd h hb
  · exact ⟨rfl, rfl⟩

theorem lost_drawn (m : Menu) (o : Order) (s : Stock) (item : String) :
    Stock.Lost (fun i => if m.isInstant i = .ok true then 0
        else Item.unitsOf i (line item (share m o s item).taken))
      s (drawn m s item (Quantity.capped (o.short item))) := by
  unfold share
  by_cases hb : m.isInstant item = .ok true
  · rw [(met_of_instant hb _).2]
    refine (Stock.Lost.refl s).congr fun i => ?_
    split
    · rfl
    · next hi =>
      rw [unitsOf_line, if_neg]
      rintro rfl
      exact hi hb
  · generalize Quantity.capped (o.short item) = needed
    obtain ⟨htaken, hdrawn⟩ := met_of_not_instant (s := s) hb needed
    have hle : ((s.onHand item).least needed).units ≤ (s.onHand item).units := Nat.min_le_left _ _
    rw [htaken, hdrawn]
    refine ⟨Stock.keys_without hle, Stock.announces_without s item _, fun i => ?_⟩
    rw [unitsOf_line]
    by_cases hi : item = i
    · subst hi
      rw [if_neg hb, if_pos rfl]
      exact Stock.onHand_without hle
    · rw [if_neg hi, Stock.onHand_without_of_ne hle hi, ite_self]
      rfl

/-- Units of an item that an order is given: of one that is handed out at once all it misses, of
any other as many as there are. -/
theorem share_units (ho : o.Sound m) (s : Stock) (item : String) :
    (share m o s item).taken.units =
        (if m.isInstant item = .ok true then o.short item
          else min (s.onHand item).units (o.short item)) ∧
      (share m o s item).shortfall.units = o.short item - (share m o s item).taken.units := by
  have hneed := ho.needed_units item
  have hadd := met_add m s item (Quantity.capped (o.short item))
  have htaken : (share m o s item).taken.units =
      if m.isInstant item = .ok true then o.short item
        else min (s.onHand item).units (o.short item) := by
    unfold share
    by_cases hb : m.isInstant item = .ok true
    · rw [(met_of_instant (s := s) hb _).1, if_pos hb, hneed]
    · rw [(met_of_not_instant (s := s) hb _).1, if_neg hb]
      show min (s.onHand item).units (Quantity.capped (o.short item)).units = _
      rw [hneed]
  refine ⟨htaken, ?_⟩
  unfold share at htaken ⊢
  omega

/-! ### Several items -/

/-- Packing is to log what was packed. -/
theorem filled_order (m : Menu) (items : List String) (o : Order) (s : Stock) :
    (filled m items o s).order = o.logged (filled m items o s).packed := by
  induction items generalizing o s with
  | nil => rfl
  | cons item r ih =>
    unfold filled
    dsimp only
    rw [ih, served_eq, Order.logged_logged]

/-- What was packed left the stock, but for items that are handed out at once. -/
theorem lost_filled (m : Menu) (items : List String) (o : Order) (s : Stock) :
    Stock.Lost (fun i => if m.isInstant i = .ok true then 0
        else Item.unitsOf i (filled m items o s).packed)
      s (filled m items o s).stock := by
  induction items generalizing o s with
  | nil =>
    refine (Stock.Lost.refl s).congr fun i => ?_
    split <;> rfl
  | cons item r ih =>
    unfold filled
    dsimp only
    rw [served_eq]
    refine ((lost_drawn m o s item).trans (ih _ _)).congr fun i => ?_
    split
    · rfl
    · rw [Item.unitsOf_append]

/-- **Each item is packed as if it were the only one.** -/
theorem filled_exact (m : Menu) (hitems : items.Nodup) (o : Order) (s : Stock) :
    (filled m items o s).packed = (items.flatMap fun i => line i (share m o s i).taken) ∧
      (filled m items o s).requests =
        items.flatMap fun i => line i (share m o s i).shortfall := by
  induction items generalizing o s with
  | nil => exact ⟨rfl, rfl⟩
  | cons item r ih =>
    obtain ⟨hitem, hr⟩ := List.nodup_cons.1 hitems
    -- the items to come are not touched by packing this one
    have hrest : ∀ i ∈ r, share m (o.logged (line item (share m o s item).taken))
        (drawn m s item (Quantity.capped (o.short item))) i = share m o s i := by
      intro i hi
      have hne : item ≠ i := fun h => hitem (h ▸ hi)
      apply share_congr
      · rw [Order.logged_short, unitsOf_line, if_neg hne, Nat.sub_zero]
      · exact drawn_other m s _ hne
    obtain ⟨hpacked, hrequests⟩ := ih hr (o.logged (line item (share m o s item).taken))
      (drawn m s item (Quantity.capped (o.short item)))
    unfold filled
    rw [served_eq]
    dsimp only
    rw [hpacked, hrequests, List.flatMap_cons, List.flatMap_cons]
    constructor
    · rw [List.flatMap_congr fun i hi => by rw [hrest i hi]]
    · rw [List.flatMap_congr fun i hi => by rw [hrest i hi]]

end Takeaway.Coverage
