import Takeaway.Proofs.Order.Onward

/-!
Orders that lines were logged for. Main statements: packing some units is to log a line; lines may
be logged at once or one after the other; and which lines were logged is all there is to know of an
order that was packed and written back, but for the time stamp.
-/

namespace Takeaway.Order

variable {m : Menu} {o o' o'' : Order} {lines lines' : List Item} {item : String} {q : Quantity}

/-- The order after some lines were logged, with the status that follows from them. -/
def logged (o : Order) (lines : List Item) : Order :=
  if lines = [] then o
  else
    { o with
      packed := o.packed ++ lines
      status := ({ o with packed := o.packed ++ lines } : Order).derivedStatus }

/-! ### Single fields -/

@[simp] theorem logged_nil (o : Order) : o.logged [] = o := rfl

theorem logged_of_ne_nil (o : Order) (h : lines ≠ []) :
    o.logged lines =
      { o with
        packed := o.packed ++ lines
        status := ({ o with packed := o.packed ++ lines } : Order).derivedStatus } := if_neg h

@[simp] theorem logged_number (o : Order) (lines : List Item) :
    (o.logged lines).number = o.number := by
  unfold logged
  split <;> rfl

@[simp] theorem logged_customer (o : Order) (lines : List Item) :
    (o.logged lines).customer = o.customer := by
  unfold logged
  split <;> rfl

@[simp] theorem logged_items (o : Order) (lines : List Item) :
    (o.logged lines).items = o.items := by
  unfold logged
  split <;> rfl

@[simp] theorem logged_placedAt (o : Order) (lines : List Item) :
    (o.logged lines).placedAt = o.placedAt := by
  unfold logged
  split <;> rfl

@[simp] theorem logged_packed (o : Order) (lines : List Item) :
    (o.logged lines).packed = o.packed ++ lines := by
  unfold logged
  split
  · next h => rw [h, List.append_nil]
  · rfl

theorem logged_touch (o : Order) (lines : List Item) (time : Timestamp) :
    (o.touch time).logged lines = (o.logged lines).touch time := by
  unfold logged
  split <;> rfl

/-- The status follows from the totals. -/
theorem derivedStatus_congr (hp : o.packedUnits = o'.packedUnits)
    (hr : o.requestedUnits = o'.requestedUnits) : o.derivedStatus = o'.derivedStatus := by
  unfold derivedStatus
  rw [hp, hr]

/-- **Lines are logged at once or one after the other.** -/
theorem logged_logged (o : Order) (lines lines' : List Item) :
    (o.logged lines).logged lines' = o.logged (lines ++ lines') := by
  by_cases h : lines = []
  · subst h
    simp
  by_cases h' : lines' = []
  · subst h'
    simp
  have hne : lines ++ lines' ≠ [] := by simp [h]
  rw [logged_of_ne_nil _ h, logged_of_ne_nil _ h', logged_of_ne_nil _ hne]
  simp only [List.append_assoc]
  rfl

/-- **Packing some units is to log a line.** -/
theorem pack_eq_logged (o : Order) (item : String) (hq : 0 < q.units) :
    o.pack item q = o.logged [⟨item, q⟩] := by
  rw [pack_of_pos o item hq, logged_of_ne_nil o (List.cons_ne_nil _ _)]

/-! ### What is missing -/

@[simp] theorem logged_packedOf (o : Order) (lines : List Item) (i : String) :
    (o.logged lines).packedOf i = o.packedOf i + Item.unitsOf i lines := by
  unfold packedOf
  rw [logged_packed, Item.unitsOf_append]

theorem logged_short (o : Order) (lines : List Item) (i : String) :
    (o.logged lines).short i = o.short i - Item.unitsOf i lines := by
  unfold short requestedOf
  rw [logged_packedOf, logged_items]
  omega

theorem logged_packedUnits (o : Order) (lines : List Item) :
    (o.logged lines).packedUnits = o.packedUnits + Item.units lines := by
  unfold packedUnits
  rw [logged_packed, Item.units_append]

theorem logged_requestedUnits (o : Order) (lines : List Item) :
    (o.logged lines).requestedUnits = o.requestedUnits := by
  unfold requestedUnits
  rw [logged_items]

/-! ### Orders that were written back -/

/-- The one order is the other after some lines were logged and it was written back, or the same
order if there were none. -/
def Gains (lines : List Item) (o o' : Order) : Prop :=
  ∃ time, o' = if lines = [] then o else (o.logged lines).touch time

namespace Gains

protected theorem refl (o : Order) : o.Gains [] o := ⟨o.changedAt, rfl⟩

theorem eq_of_nil (h : o.Gains [] o') : o' = o := by
  obtain ⟨time, rfl⟩ := h
  rfl

/-- But for the time stamp the order is the one with the lines logged. -/
theorem eq_logged (h : o.Gains lines o') : o'.touch o.changedAt = o.logged lines := by
  obtain ⟨time, rfl⟩ := h
  unfold logged touch
  split <;> rfl

protected theorem trans (h : o.Gains lines o') (h' : o'.Gains lines' o'') :
    o.Gains (lines ++ lines') o'' := by
  by_cases hl' : lines' = []
  · subst hl'
    rw [h'.eq_of_nil, List.append_nil]
    exact h
  by_cases hl : lines = []
  · subst hl
    rw [h.eq_of_nil] at h'
    exact h'
  obtain ⟨time, rfl⟩ := h
  obtain ⟨time', rfl⟩ := h'
  refine ⟨time', ?_⟩
  rw [if_neg hl, if_neg hl', if_neg (by simp [hl]), logged_touch, logged_logged]
  rfl

section Fields

variable (h : o.Gains lines o')
include h

theorem number : o'.number = o.number := by
  rw [show o'.number = (o'.touch o.changedAt).number from rfl, h.eq_logged, logged_number]

theorem customer : o'.customer = o.customer := by
  rw [show o'.customer = (o'.touch o.changedAt).customer from rfl, h.eq_logged, logged_customer]

theorem placedAt : o'.placedAt = o.placedAt := by
  rw [show o'.placedAt = (o'.touch o.changedAt).placedAt from rfl, h.eq_logged, logged_placedAt]

theorem items : o'.items = o.items := by
  rw [show o'.items = (o'.touch o.changedAt).items from rfl, h.eq_logged, logged_items]

theorem packed : o'.packed = o.packed ++ lines := by
  rw [show o'.packed = (o'.touch o.changedAt).packed from rfl, h.eq_logged, logged_packed]

theorem status : o'.status = (o.logged lines).status := by
  rw [show o'.status = (o'.touch o.changedAt).status from rfl, h.eq_logged]

theorem short (i : String) : o'.short i = o.short i - Item.unitsOf i lines := by
  rw [show o'.short i = (o'.touch o.changedAt).short i from rfl, h.eq_logged, logged_short]

end Fields

end Gains

end Takeaway.Order
