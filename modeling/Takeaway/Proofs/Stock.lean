import Takeaway.Order.Item
import Takeaway.Proofs.Index
import Takeaway.Stock

/-!
What taking and adding do to the counts of the stock: they change the count of the one item, a take
by what it takes, an addition by what it adds up to the largest count; and so do additions of many
lines.
-/

namespace Takeaway.Stock

variable {s s' : Stock} {item i : String} {q : Quantity}

theorem onHand_seed_self : (s.seed item q).onHand item = q := by
  unfold onHand seed
  rw [Index.find?_insert_self]
  rfl

theorem onHand_seed_of_ne (h : item ≠ i) : (s.seed item q).onHand i = s.onHand i := by
  unfold onHand seed
  rw [Index.find?_insert_of_ne _ _ h]

theorem mem_keys_seed : i ∈ (s.seed item q).counts.keys ↔ i = item ∨ i ∈ s.counts.keys := by
  constructor
  · intro h
    obtain ⟨x, hx⟩ := Index.mem_keys.1 h
    rcases Index.find?_insert hx with ⟨rfl, -⟩ | ⟨-, hold⟩
    · exact .inl rfl
    · exact .inr (Index.mem_keys.2 ⟨x, hold⟩)
  · intro h
    by_cases hi : item = i
    · subst hi
      exact Index.mem_keys.2 ⟨q, Index.find?_insert_self _ _ _⟩
    · obtain ⟨x, hx⟩ := Index.mem_keys.1 (h.resolve_left fun he => hi he.symm)
      exact Index.mem_keys.2 ⟨x, (Index.find?_insert_of_ne _ _ hi).trans hx⟩

/-- The count of an item, if it has one, is what is on hand. -/
theorem find?_counts (s : Stock) (i : String) :
    s.counts.find? i = if i ∈ s.counts.keys then some (s.onHand i) else none := by
  unfold onHand
  cases hi : s.counts.find? i with
  | none =>
    rw [if_neg]
    intro hmem
    obtain ⟨x, hx⟩ := Index.mem_keys.1 hmem
    rw [hi] at hx
    cases hx
  | some x =>
    rw [if_pos (Index.mem_keys.2 ⟨x, hi⟩)]
    rfl

/-! ### Adding -/

theorem onHand_add (s : Stock) (item : String) (q : Quantity) :
    ((s.add item q).onHand item).units =
      min ((s.onHand item).units + q.units) Quantity.largest := by
  unfold add
  rw [onHand_seed_self]
  rfl

/-- Units are dropped only beyond the largest count, and no more than were added. -/
theorem onHand_add_dropped (h : s.overflows item q = true) :
    Quantity.largest - (s.onHand item).units ≤ q.units ∧
      ((s.add item q).onHand item).units + (q.units - (Quantity.largest - (s.onHand item).units)) =
        (s.onHand item).units + q.units := by
  have hover : Quantity.largest < (s.onHand item).units + q.units := of_decide_eq_true h
  have hfits : (s.onHand item).units ≤ Quantity.largest := (s.onHand item).fits
  rw [onHand_add]
  omega

theorem onHand_add_of_ne (h : item ≠ i) : (s.add item q).onHand i = s.onHand i :=
  onHand_seed_of_ne h

/-- The stock with the units of some lines added, one line after the other. -/
def addAll (s : Stock) : List Item → Stock
  | [] => s
  | i :: r => if i.quantity.units = 0 then s.addAll r else (s.add i.name i.quantity).addAll r

/-- What is added is there, up to the largest count. -/
theorem onHand_addAll (lines : List Item) (s : Stock) (i : String) :
    ((s.addAll lines).onHand i).units =
      min ((s.onHand i).units + Item.unitsOf i lines) Quantity.largest := by
  induction lines generalizing s with
  | nil =>
    have := (s.onHand i).fits
    simp only [addAll, Item.unitsOf]
    unfold Quantity.largest
    omega
  | cons l r ih =>
    unfold addAll
    rw [Item.unitsOf]
    split
    · next h0 =>
      rw [ih, h0]
      split <;> simp
    · rw [ih]
      by_cases hl : l.name = i
      · subst hl
        rw [onHand_add, if_pos rfl]
        omega
      · rw [onHand_add_of_ne hl, if_neg hl]
        omega

theorem announces_addAll (lines : List Item) (s : Stock) :
    (s.addAll lines).announces = s.announces := by
  induction lines generalizing s with
  | nil => rfl
  | cons i r ih =>
    unfold addAll
    split
    · exact ih s
    · exact ih _

theorem addAll_append (l₁ l₂ : List Item) (s : Stock) :
    s.addAll (l₁ ++ l₂) = (s.addAll l₁).addAll l₂ := by
  induction l₁ generalizing s with
  | nil => rfl
  | cons i r ih =>
    rw [List.cons_append, addAll, addAll]
    split <;> exact ih _

/-! ### Taking -/

/-- The stock without some units that are there. -/
def without (s : Stock) (item : String) (q : Quantity) : Stock :=
  if q.units = 0 then s else s.seed item ((s.onHand item).less q)

theorem announces_without (s : Stock) (item : String) (q : Quantity) :
    (s.without item q).announces = s.announces := by
  unfold without
  split <;> rfl

theorem take_eq (h : q.units ≤ (s.onHand item).units) :
    s.take item q = .ok (s.without item q) := by
  unfold take without
  split
  · rfl
  · rw [if_neg (by omega)]

/-- A take of more than there is fails, and tells how much there is. -/
theorem take_error (h : (s.onHand item).units < q.units) :
    s.take item q = .error (.insufficient item q (s.onHand item)) := by
  unfold take
  rw [if_neg (by omega), if_pos h]

theorem announces_take (h : s.take item q = .ok s') : s'.announces = s.announces := by
  unfold take at h
  split at h
  · cases h; rfl
  · split at h <;> cases h
    rfl

/-- What is taken is no longer there, and nothing else is gone. -/
theorem onHand_take (h : s.take item q = .ok s') :
    ((s'.onHand item).units + q.units = (s.onHand item).units) ∧
      ∀ i, item ≠ i → s'.onHand i = s.onHand i := by
  unfold take at h
  split at h
  · next h0 =>
    cases h
    exact ⟨by omega, fun _ _ => rfl⟩
  · split at h
    · cases h
    · next hle =>
      cases h
      refine ⟨?_, fun i hi => onHand_seed_of_ne hi⟩
      rw [onHand_seed_self]
      simp only [Quantity.less]
      omega

theorem onHand_without (h : q.units ≤ (s.onHand item).units) :
    ((s.without item q).onHand item).units + q.units = (s.onHand item).units :=
  (onHand_take (take_eq h)).1

theorem onHand_without_of_ne (h : q.units ≤ (s.onHand item).units) (hi : item ≠ i) :
    (s.without item q).onHand i = s.onHand i :=
  (onHand_take (take_eq h)).2 i hi

/-- Units are taken of items with a count only, so no count is begun. -/
theorem keys_without (h : q.units ≤ (s.onHand item).units) :
    (s.without item q).counts.keys = s.counts.keys := by
  unfold without
  split
  · rfl
  · next hq =>
    cases hfind : s.counts.find? item with
    | some x => exact Index.keys_insert_old _ hfind
    | none =>
      have hnone : (s.onHand item).units = 0 := by
        unfold onHand
        rw [hfind]
        rfl
      omega

theorem keys_take (h : s.take item q = .ok s') : s'.counts.keys = s.counts.keys := by
  by_cases hle : q.units ≤ (s.onHand item).units
  · rw [take_eq hle] at h
    cases h
    exact keys_without hle
  · rw [take_error (Nat.lt_of_not_le hle)] at h
    cases h

/-! ### Stocks compared -/

/-- The one stock is the other without so many units of each item. -/
structure Lost (t : String → Nat) (s s' : Stock) : Prop where
  keys : s'.counts.keys = s.counts.keys
  announces : s'.announces = s.announces
  onHand : ∀ i, (s'.onHand i).units + t i = (s.onHand i).units

namespace Lost

variable {s'' : Stock} {t t' : String → Nat}

protected theorem refl (s : Stock) : Lost (fun _ => 0) s s := ⟨rfl, rfl, fun _ => rfl⟩

protected theorem trans (h : Lost t s s') (h' : Lost t' s' s'') :
    Lost (fun i => t i + t' i) s s'' where
  keys := h'.keys.trans h.keys
  announces := h'.announces.trans h.announces
  onHand i := by
    have h₁ := h.onHand i
    have h₂ := h'.onHand i
    omega

theorem congr (h : Lost t s s') (ht : ∀ i, t i = t' i) : Lost t' s s' where
  keys := h.keys
  announces := h.announces
  onHand i := by rw [← ht]; exact h.onHand i

/-- What is left does not depend on how the units went. -/
theorem unique (h : Lost t s s') (h' : Lost t s s'') : s' = s'' := by
  have hkeys : s'.counts.keys = s''.counts.keys := h.keys.trans h'.keys.symm
  have hcounts : s'.counts = s''.counts := by
    refine Index.ext_find? hkeys fun i => ?_
    have hunits : s'.onHand i = s''.onHand i := by
      apply Quantity.ext
      have h₁ := h.onHand i
      have h₂ := h'.onHand i
      omega
    rw [find?_counts s', find?_counts s'', hkeys, hunits]
  have hannounces := h.announces.trans h'.announces.symm
  cases s'
  cases s''
  congr

end Lost

end Takeaway.Stock
