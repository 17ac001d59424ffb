import Takeaway.Proofs.Order.Logged

/-!
The statuses that an order passes through while it is packed. Main statement: as long as no more is
packed than was asked for, rows of lines that are packed one after the other take the order through
the same statuses whichever comes first.
-/

namespace Takeaway

namespace Item

variable {l l' : List Item}

theorem unitsOf_perm (h : l.Perm l') (name : String) : unitsOf name l = unitsOf name l' := by
  induction h with
  | nil => rfl
  | cons i _ ih => rw [unitsOf, unitsOf, ih]
  | swap i j _ => simp only [unitsOf]; omega
  | trans _ _ ih₁ ih₂ => exact ih₁.trans ih₂

theorem units_perm (h : l.Perm l') : units l = units l' := by
  induction h with
  | nil => rfl
  | cons i _ ih => rw [units, units, ih]
  | swap i j _ => simp only [units]; omega
  | trans _ _ ih₁ ih₂ => exact ih₁.trans ih₂

theorem units_flatMap {α : Type} (f : α → List Item) (l : List α) :
    units (l.flatMap f) = ((l.map f).map units).sum := by
  induction l with
  | nil => rfl
  | cons a r ih =>
    rw [List.flatMap_cons, units_append, ih, List.map_cons, List.map_cons, List.sum_cons]

end Item

namespace Order

variable {o o' : Order} {lines x y : List Item} {rows rows' : List (List Item)}

/-- The new statuses of an order for which rows of lines are logged one after the other. -/
def climb (o : Order) : List (List Item) → List Status
  | [] => []
  | lines :: r =>
    (if (o.logged lines).status = o.status then [] else [(o.logged lines).status]) ++
      (o.logged lines).climb r

theorem climb_cons (o : Order) (lines : List Item) (rows : List (List Item)) :
    o.climb (lines :: rows) =
      (if (o.logged lines).status = o.status then [] else [(o.logged lines).status]) ++
        (o.logged lines).climb rows := rfl

/-- Where nothing is packed the status stays. -/
theorem climb_nil_cons (o : Order) (rows : List (List Item)) :
    o.climb ([] :: rows) = o.climb rows := by
  rw [climb_cons, logged_nil, if_pos rfl, List.nil_append]

/-- Orders of the same status with the same totals. -/
structure Level (o o' : Order) : Prop where
  status : o'.status = o.status
  packed : o'.packedUnits = o.packedUnits
  requested : o'.requestedUnits = o.requestedUnits

theorem Gains.level (h : o.Gains lines o') : (o.logged lines).Level o' := by
  rw [← h.eq_logged]
  exact ⟨rfl, rfl, rfl⟩

namespace Level

theorem logged (h : o.Level o') (lines : List Item) : (o.logged lines).Level (o'.logged lines) := by
  have hpacked : (o'.logged lines).packedUnits = (o.logged lines).packedUnits := by
    rw [logged_packedUnits, logged_packedUnits, h.packed]
  have hrequested : (o'.logged lines).requestedUnits = (o.logged lines).requestedUnits := by
    rw [logged_requestedUnits, logged_requestedUnits, h.requested]
  refine ⟨?_, hpacked, hrequested⟩
  by_cases hl : lines = []
  · rw [hl, logged_nil, logged_nil, h.status]
  · rw [logged_of_ne_nil _ hl] at hpacked hrequested ⊢
    rw [logged_of_ne_nil _ hl] at hpacked hrequested ⊢
    exact derivedStatus_congr hpacked hrequested

/-- The statuses to come depend on the status and the totals only. -/
theorem climb (h : o.Level o') (rows : List (List Item)) : o'.climb rows = o.climb rows := by
  induction rows generalizing o o' with
  | nil => rfl
  | cons lines r ih =>
    have hnext := h.logged lines
    rw [climb_cons, climb_cons, hnext.status, h.status, ih hnext]

end Level

/-- It does not matter in which order the lines are logged. -/
theorem level_of_perm (o : Order) (h : x.Perm y) : (o.logged x).Level (o.logged y) := by
  by_cases hx : x = []
  · subst hx
    rw [h.nil_eq]
    exact ⟨rfl, rfl, rfl⟩
  have hy : y ≠ [] := fun hy => hx (by rw [hy] at h; exact h.eq_nil)
  have hpacked : (o.logged y).packedUnits = (o.logged x).packedUnits := by
    rw [logged_packedUnits, logged_packedUnits, Item.units_perm h]
  have hrequested : (o.logged y).requestedUnits = (o.logged x).requestedUnits := by
    rw [logged_requestedUnits, logged_requestedUnits]
  refine ⟨?_, hpacked, hrequested⟩
  rw [logged_of_ne_nil _ hx, logged_of_ne_nil _ hy] at hpacked hrequested ⊢
  exact derivedStatus_congr hpacked hrequested

/-- An order that still misses some after packing is in progress. -/
theorem status_logged_of_less (hl : lines ≠ [])
    (hless : o.packedUnits + Item.units lines < o.requestedUnits) :
    (o.logged lines).status = .inProgress := by
  rw [← logged_packedUnits, ← logged_requestedUnits o lines] at hless
  rw [logged_of_ne_nil _ hl] at hless ⊢
  exact if_pos hless

/-- Neighbours may change places. -/
theorem climb_swap (hx : x ≠ [] → 0 < Item.units x) (hy : y ≠ [] → 0 < Item.units y)
    (hfits : o.packedUnits + (Item.units x + Item.units y) ≤ o.requestedUnits)
    (rows : List (List Item)) : o.climb (x :: y :: rows) = o.climb (y :: x :: rows) := by
  by_cases hx₀ : x = []
  · subst hx₀
    rw [climb_nil_cons, climb_cons, climb_cons, climb_nil_cons]
  by_cases hy₀ : y = []
  · subst hy₀
    rw [climb_nil_cons, climb_cons, climb_nil_cons, climb_cons]
  -- after the first of them the order is in progress, whichever it is
  have h₁ := status_logged_of_less (o := o) hx₀ (by have := hy hy₀; omega)
  have h₂ := status_logged_of_less (o := o) hy₀ (by have := hx hx₀; omega)
  have hlevel : ((o.logged x).logged y).Level ((o.logged y).logged x) := by
    rw [logged_logged, logged_logged]
    exact level_of_perm o List.perm_append_comm
  simp only [climb_cons]
  rw [h₁, h₂, hlevel.status, hlevel.climb]

/-- **Rows of lines take an order through the same statuses whichever comes first**, as long as no
more is packed than was asked for. -/
theorem climb_perm (h : rows.Perm rows') (hpos : ∀ l ∈ rows, l ≠ [] → 0 < Item.units l)
    (hfits : o.packedUnits + (rows.map Item.units).sum ≤ o.requestedUnits) :
    o.climb rows = o.climb rows' := by
  induction h generalizing o with
  | nil => rfl
  | cons lines _ ih =>
    have hrest := ih (o := o.logged lines) (fun l hl => hpos l (List.mem_cons_of_mem _ hl)) (by
      rw [List.map_cons, List.sum_cons] at hfits
      rw [logged_packedUnits, logged_requestedUnits]
      omega)
    rw [climb_cons, climb_cons, hrest]
  | swap y x rows =>
    rw [List.map_cons, List.map_cons, List.sum_cons, List.sum_cons] at hfits
    exact climb_swap (hpos x (by simp)) (hpos y (by simp)) (by omega) rows
  | trans h₁ _ ih₁ ih₂ =>
    refine (ih₁ hpos hfits).trans (ih₂ (fun l hl => hpos l (h₁.mem_iff.2 hl)) ?_)
    rwa [← (h₁.map Item.units).sum_eq]

end Order

end Takeaway
