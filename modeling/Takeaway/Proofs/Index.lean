import Takeaway.Index
import Mathlib.Algebra.Order.BigOperators.Group.Finset
import Mathlib.Algebra.Order.BigOperators.Group.List
import Mathlib.Algebra.Order.Ring.Nat

/-!
Entries and sums of maps. Main statements: a value is found under a key exactly when it stands
there as an entry, and a write changes the sum of a measure over the values by what the new value
measures less what the old one did.
-/

set_option linter.unusedSectionVars false

namespace Takeaway.Index

variable {κ β : Type} [LT κ] [DecidableEq κ]

/-- The sum of a measure over the values of a map. -/
def total (f : β → Nat) (m : Index κ β) : Nat := (m.values.map f).sum

/-! ### Rows of entries -/

section Rows

theorem mem_of_get {k : κ} {x : β} {l : List (κ × β)} (h : get k l = some x) : (k, x) ∈ l := by
  induction l with
  | nil => simp [get] at h
  | cons e r ih =>
    rw [get] at h
    split at h
    · next he =>
      obtain ⟨a, y⟩ := e
      cases h
      subst he
      exact List.mem_cons_self ..
    · exact List.mem_cons_of_mem _ (ih h)

variable [Std.Irrefl (α := κ) (· < ·)]

theorem get_of_mem {k : κ} {x : β} {l : List (κ × β)}
    (hl : l.Pairwise (fun a b => a.1 < b.1)) (h : (k, x) ∈ l) : get k l = some x := by
  induction l with
  | nil => simp at h
  | cons e r ih =>
    obtain ⟨he, hr⟩ := List.pairwise_cons.1 hl
    rcases List.mem_cons.1 h with rfl | h
    · simp [get]
    · have hlt := he _ h
      have hne : e.1 ≠ k := by
        rintro rfl
        exact Std.Irrefl.irrefl (r := (· < · : κ → κ → Prop)) _ hlt
      rw [get, if_neg hne]
      exact ih hr h

variable [DecidableRel (α := κ) (· < ·)] [Trans (α := κ) (· < ·) (· < ·) (· < ·)]
  [Std.Trichotomous (α := κ) (· < ·)]

theorem sum_put_new (f : β → Nat) {k : κ} (x : β) {l : List (κ × β)} (h : get k l = none) :
    ((put k x l).map fun e => f e.2).sum = (l.map fun e => f e.2).sum + f x := by
  induction l with
  | nil => simp [put]
  | cons e r ih =>
    rw [get] at h
    split at h
    · cases h
    · next hne =>
      rw [put]
      split
      · simp only [List.map_cons, List.sum_cons]; omega
      · next h₁ =>
        split
        · simp only [List.map_cons, List.sum_cons, ih h]; omega
        · next h₂ =>
          rcases Std.lt_trichotomy k e.1 with h | h | h
          · exact absurd h h₁
          · exact absurd h.symm hne
          · exact absurd h h₂

theorem sum_put_old (f : β → Nat) {k : κ} (x : β) {y : β} {l : List (κ × β)}
    (hl : l.Pairwise (fun a b => a.1 < b.1)) (h : get k l = some y) :
    ((put k x l).map fun e => f e.2).sum + f y = (l.map fun e => f e.2).sum + f x := by
  induction l with
  | nil => simp [get] at h
  | cons e r ih =>
    obtain ⟨he, hr⟩ := List.pairwise_cons.1 hl
    rw [get] at h
    rw [put]
    split at h
    · next hk =>
      cases h
      subst hk
      have hirr := Std.Irrefl.irrefl (r := (· < · : κ → κ → Prop)) e.1
      rw [if_neg hirr, if_neg hirr]
      simp only [List.map_cons, List.sum_cons]; omega
    · have hlt : e.1 < k := he _ (mem_of_get h)
      have hnot : ¬ k < e.1 := fun hk =>
        Std.Irrefl.irrefl (r := (· < · : κ → κ → Prop)) k (Std.lt_trans hk hlt)
      rw [if_neg hnot, if_pos hlt]
      have := ih hr h
      simp only [List.map_cons, List.sum_cons]; omega

/-- Behind all other keys a value is written at the end. -/
theorem put_last {k : κ} (x : β) {l : List (κ × β)} (h : ∀ e ∈ l, e.1 < k) :
    put k x l = l ++ [(k, x)] := by
  induction l with
  | nil => rfl
  | cons e r ih =>
    obtain ⟨hlt, hr⟩ := List.forall_mem_cons.1 h
    have hnot : ¬ k < e.1 := fun hk =>
      Std.Irrefl.irrefl (r := (· < · : κ → κ → Prop)) k (Std.lt_trans hk hlt)
    rw [put, if_neg hnot, if_pos hlt, ih hr, List.cons_append]

end Rows

/-! ### Maps -/

variable {m : Index κ β} {k : κ} {x y : β}

theorem total_eq (f : β → Nat) (m : Index κ β) :
    m.total f = (m.entries.map fun e => f e.2).sum := by
  unfold total values
  rw [List.map_map]
  rfl

theorem total_add (f g : β → Nat) (m : Index κ β) :
    (m.total fun x => f x + g x) = m.total f + m.total g := by
  unfold total
  exact List.sum_map_add

theorem mem_of_find? (h : m.find? k = some x) : (k, x) ∈ m.entries := mem_of_get h

variable [Std.Irrefl (α := κ) (· < ·)]

theorem find?_eq_some_iff : m.find? k = some x ↔ (k, x) ∈ m.entries :=
  ⟨mem_of_get, get_of_mem m.ascending⟩

theorem mem_values : x ∈ m.values ↔ ∃ k, m.find? k = some x := by
  unfold values
  constructor
  · intro h
    obtain ⟨e, he, rfl⟩ := List.mem_map.1 h
    exact ⟨e.1, find?_eq_some_iff.2 he⟩
  · rintro ⟨k, h⟩
    exact List.mem_map.2 ⟨(k, x), mem_of_find? h, rfl⟩

/-- No single value measures more than all of them. -/
theorem le_total (f : β → Nat) (h : m.find? k = some x) : f x ≤ m.total f := by
  rw [total_eq]
  exact List.single_le_sum (fun _ _ => Nat.zero_le _) _
    (List.mem_map.2 ⟨(k, x), mem_of_find? h, rfl⟩)

theorem total_le {f : β → Nat} {g : β → Nat} (h : ∀ k x, m.find? k = some x → f x ≤ g x) :
    m.total f ≤ m.total g := by
  rw [total_eq, total_eq]
  exact List.sum_le_sum fun e he => h e.1 e.2 (find?_eq_some_iff.2 he)

theorem total_congr {f g : β → Nat} (h : ∀ k x, m.find? k = some x → f x = g x) :
    m.total f = m.total g := by
  rw [total_eq, total_eq]
  exact congrArg List.sum (List.map_congr_left fun e he => h e.1 e.2 (find?_eq_some_iff.2 he))

theorem mem_keys : k ∈ m.keys ↔ ∃ x, m.find? k = some x := by
  unfold keys
  rw [List.mem_map]
  constructor
  · rintro ⟨e, he, rfl⟩
    exact ⟨e.2, find?_eq_some_iff.2 he⟩
  · rintro ⟨x, hx⟩
    exact ⟨(k, x), mem_of_find? hx, rfl⟩

theorem keys_nodup (m : Index κ β) : m.keys.Nodup := by
  refine List.pairwise_map.2 (m.ascending.imp fun hlt heq => ?_)
  rw [heq] at hlt
  exact Std.Irrefl.irrefl (r := (· < · : κ → κ → Prop)) _ hlt

/-- Every entry is found under its key. -/
theorem entries_eq (m : Index κ β) :
    m.entries = m.keys.filterMap fun k => (m.find? k).map fun x => (k, x) := by
  unfold keys
  rw [List.filterMap_map]
  refine List.filterMap_some.symm.trans (List.filterMap_congr fun e he => ?_)
  simp [find?_eq_some_iff.2 he]

/-- Maps with the same keys that answer every look-up alike are equal. -/
theorem ext_find? {m' : Index κ β} (hk : m.keys = m'.keys) (h : ∀ k, m.find? k = m'.find? k) :
    m = m' := by
  have he : m.entries = m'.entries := by
    rw [entries_eq, entries_eq, hk]
    simp only [h]
  cases m
  cases m'
  congr

/-- Values that tell their keys stand in strictly ascending order of what they tell. -/
theorem values_ascending {f : β → κ} (h : ∀ k x, m.find? k = some x → f x = k) :
    (m.values.map f).Pairwise (· < ·) := by
  have heq : m.values.map f = m.keys := by
    unfold values keys
    rw [List.map_map]
    exact List.map_congr_left fun e he => h _ _ (find?_eq_some_iff.2 he)
  rw [heq]
  exact List.pairwise_map.2 m.ascending

/-- The sum of a measure over the values is its sum over the keys. -/
theorem total_eq_sum_keys (f : β → Nat) (m : Index κ β) :
    m.total f = ∑ k ∈ m.keys.toFinset, ((m.find? k).map f).getD 0 := by
  rw [List.sum_toFinset _ m.keys_nodup, total_eq, keys, List.map_map]
  refine congrArg List.sum (List.map_congr_left fun e he => ?_)
  simp only [Function.comp_apply]
  rw [find?_eq_some_iff.2 he]
  rfl

/-- What measures at most as much as a measure of the keys comes to no more than that over all
keys. -/
theorem total_le_sum_keys {f : β → Nat} {g : κ → Nat}
    (h : ∀ k x, m.find? k = some x → f x ≤ g k) : m.total f ≤ ∑ k ∈ m.keys.toFinset, g k := by
  rw [total_eq_sum_keys]
  refine Finset.sum_le_sum fun k hk => ?_
  obtain ⟨x, hx⟩ := mem_keys.1 (List.mem_toFinset.1 hk)
  rw [hx]
  exact h k x hx

/-- A map with at least the keys of another, and values that measure no less, comes to no less. -/
theorem total_le_total {m' : Index κ β} {f g : β → Nat}
    (h : ∀ k x, m.find? k = some x → ∃ y, m'.find? k = some y ∧ f x ≤ g y) :
    m.total f ≤ m'.total g := by
  have hsub : m.keys.toFinset ⊆ m'.keys.toFinset := by
    intro k hk
    obtain ⟨x, hx⟩ := mem_keys.1 (List.mem_toFinset.1 hk)
    obtain ⟨y, hy, -⟩ := h k x hx
    exact List.mem_toFinset.2 (mem_keys.2 ⟨y, hy⟩)
  calc m.total f ≤ ∑ k ∈ m.keys.toFinset, ((m'.find? k).map g).getD 0 := by
        refine total_le_sum_keys fun k x hx => ?_
        obtain ⟨y, hy, hle⟩ := h k x hx
        rw [hy]
        exact hle
    _ ≤ ∑ k ∈ m'.keys.toFinset, ((m'.find? k).map g).getD 0 :=
        Finset.sum_le_sum_of_subset hsub
    _ = m'.total g := (total_eq_sum_keys g m').symm

variable [DecidableRel (α := κ) (· < ·)] [Trans (α := κ) (· < ·) (· < ·) (· < ·)]
  [Std.Trichotomous (α := κ) (· < ·)]

theorem total_insert_new (f : β → Nat) (x : β) (h : m.find? k = none) :
    (m.insert k x).total f = m.total f + f x := by
  rw [total_eq, total_eq]
  exact sum_put_new f x h

theorem total_insert_old (f : β → Nat) (x : β) (h : m.find? k = some y) :
    (m.insert k x).total f + f y = m.total f + f x := by
  rw [total_eq, total_eq]
  exact sum_put_old f x m.ascending h

/-- To write over a value begins no entry. -/
theorem keys_insert_old (x : β) (h : m.find? k = some y) : (m.insert k x).keys = m.keys := by
  have hput : ∀ l : List (κ × β), l.Pairwise (fun a b => a.1 < b.1) → get k l = some y →
      (put k x l).map (·.1) = l.map (·.1) := by
    intro l hl h
    induction l with
    | nil => simp [get] at h
    | cons e r ih =>
      obtain ⟨he, hr⟩ := List.pairwise_cons.1 hl
      rw [get] at h
      rw [put]
      split at h
      · next hk =>
        have hirr := Std.Irrefl.irrefl (r := (· < · : κ → κ → Prop)) e.1
        subst hk
        rw [if_neg hirr, if_neg hirr]
        rfl
      · have hlt : e.1 < k := he _ (mem_of_get h)
        have hnot : ¬ k < e.1 := fun hk =>
          Std.Irrefl.irrefl (r := (· < · : κ → κ → Prop)) k (Std.lt_trans hk hlt)
        rw [if_neg hnot, if_pos hlt, List.map_cons, List.map_cons, ih hr h]
  exact hput m.entries m.ascending h

/-- A value that is found after a write was written or found before. -/
theorem find?_insert {k' : κ} (h : (m.insert k x).find? k' = some y) :
    (k' = k ∧ y = x) ∨ (k' ≠ k ∧ m.find? k' = some y) := by
  by_cases hk : k = k'
  · subst hk
    rw [find?_insert_self] at h
    cases h
    exact .inl ⟨rfl, rfl⟩
  · rw [find?_insert_of_ne m x hk] at h
    exact .inr ⟨fun e => hk e.symm, h⟩

theorem entries_foldl_insert {l : List (κ × β)}
    (h : (m.entries ++ l).Pairwise (fun a b => a.1 < b.1)) :
    (l.foldl (fun m e => m.insert e.1 e.2) m).entries = m.entries ++ l := by
  induction l generalizing m with
  | nil => simp
  | cons e r ih =>
    have hlast : (m.insert e.1 e.2).entries = m.entries ++ [e] :=
      put_last e.2 fun d hd => (List.pairwise_append.1 h).2.2 d hd e (List.mem_cons_self ..)
    rw [List.foldl_cons, ih (by rw [hlast]; simpa using h), hlast]
    simp

/-- A map is the map of its entries. -/
theorem ofList_entries (m : Index κ β) : ofList m.entries = m := by
  have h : (ofList m.entries).entries = m.entries :=
    entries_foldl_insert (m := (∅ : Index κ β)) m.ascending
  obtain ⟨l, hl⟩ := m
  unfold ofList at h ⊢
  generalize l.foldl _ _ = m' at h ⊢
  obtain ⟨l', hl'⟩ := m'
  subst h
  rfl

end Takeaway.Index
