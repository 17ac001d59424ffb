import Takeaway.Proofs.Order.Sound

/-!
Packing no units. An order may be packed and handed over in any way, also with items it does not
ask for and with more units than it asks for. Main statement: whatever was done with an order,
packing no units changes nothing, unless the order was handed over, and then it is taken back.
-/

namespace Takeaway

namespace Order

/-! ### Calls -/

/-- A call that may change an order. -/
inductive Call where
  | pack (item : String) (q : Quantity)
  | collect

/-- The order after a call; one that is refused changes nothing. -/
def called (o : Order) : Call → Order
  | .pack item q => o.pack item q
  | .collect => o.collect.toOption.getD o

/-- The order after some calls, one after the other. -/
def after (o : Order) (calls : List Call) : Order := calls.foldl called o

/-- What a call to pack answers: whether the status is another one now. -/
def packAnswer (o : Order) (item : String) (q : Quantity) : Bool :=
  (o.pack item q).status != o.status

/-! ### What every call preserves -/

variable {o : Order}

/-- As far as packing goes, the status is the one that follows from the log; an order that was
handed over may only be one that is packed in full. -/
structure Timely (o : Order) : Prop where
  untouched : o.packedUnits = 0 → o.status = .requested
  status : o.Settled ∨ o.status = .collected ∧ o.packedUnits = o.requestedUnits

theorem timely_place (number : OrderNumber) (customer : CustomerId) (items : List Item)
    (time : Timestamp) : (place number customer items time).Timely :=
  ⟨fun _ => rfl, .inl fun h => absurd rfl h⟩

/-- Packing sets the status anew as soon as anything is packed. -/
theorem Timely.pack (h : o.Timely) (item : String) (q : Quantity) : (o.pack item q).Timely := by
  by_cases hq : 0 < q.units
  · have hpos : Item.units (o.packed ++ [⟨item, q⟩]) ≠ 0 := by
      rw [Item.units_append]
      simp only [Item.units]
      omega
    rw [pack_of_pos o item hq]
    exact ⟨fun h0 => absurd h0 hpos, .inl fun _ => rfl⟩
  · have h0 : q.units = 0 := by omega
    unfold Order.pack
    simp only [if_pos h0]
    split
    · exact h
    · next hp => exact ⟨fun h0 => absurd h0 hp, .inl fun _ => rfl⟩

/-- Packing makes no order ready of which more or less is packed than it asks for. -/
theorem packed_of_derivedStatus (h : o.derivedStatus = .ready ∨ o.derivedStatus = .collected) :
    o.packedUnits = o.requestedUnits := by
  unfold derivedStatus at h
  split at h
  · simp at h
  · split at h
    · assumption
    · simp at h

/-- An order that is ready or was handed over is packed in full. -/
theorem Timely.packed_in_full (h : o.Timely) (hs : o.status = .ready ∨ o.status = .collected) :
    o.packedUnits ≠ 0 ∧ o.packedUnits = o.requestedUnits := by
  have hpos : o.packedUnits ≠ 0 := fun h0 => by
    rw [h.untouched h0] at hs
    simp at hs
  refine ⟨hpos, ?_⟩
  rcases h.status with hset | ⟨-, heq⟩
  · rw [hset hpos] at hs
    exact packed_of_derivedStatus hs
  · exact heq

theorem Timely.collect (h : o.Timely) {new : Order} (hc : o.collect = .ok new) : new.Timely := by
  unfold Order.collect at hc
  split at hc
  · next hs =>
    cases hc
    obtain ⟨hpos, heq⟩ := h.packed_in_full (.inl hs)
    exact ⟨fun h0 => absurd h0 hpos, .inr ⟨rfl, heq⟩⟩
  · cases hc
    exact h
  · cases hc

theorem Timely.called (h : o.Timely) (c : Call) : (o.called c).Timely := by
  cases c with
  | pack item q => exact h.pack item q
  | collect =>
    unfold Order.called
    cases hc : o.collect with
    | error _ => exact h
    | ok new => exact h.collect hc

theorem Timely.after (h : o.Timely) (calls : List Call) : (o.after calls).Timely := by
  induction calls generalizing o with
  | nil => exact h
  | cons c calls ih => exact ih (h.called c)

/-- An order that was handed over has something packed, and the status that follows is the one
before. -/
theorem Timely.pack_zero_of_collected (h : o.Timely) (hs : o.status = .collected) (item : String) :
    o.pack item Quantity.zero = { o with status := .ready } := by
  obtain ⟨hpos, heq⟩ := h.packed_in_full (.inr hs)
  have hready : o.derivedStatus = .ready := by
    unfold derivedStatus
    rw [if_neg (by omega), if_pos heq]
  unfold Order.pack
  simp [Quantity.zero, hpos, hready]

/-! ### Main statement -/

/-- **Packing no units changes nothing, except that an order which was handed over becomes ready
again.** So it is after any calls that pack or hand over, on an order that was placed with any
lines. -/
theorem pack_zero_inert (number : OrderNumber) (customer : CustomerId) (items : List Item)
    (time : Timestamp) (calls : List Call) (item : String) :
    let o := (place number customer items time).after calls
    (o.status ≠ .collected →
      o.pack item Quantity.zero = o ∧ o.packAnswer item Quantity.zero = false) ∧
    (o.status = .collected →
      o.pack item Quantity.zero = { o with status := .ready } ∧
      o.packAnswer item Quantity.zero = true) := by
  intro o
  have ho : o.Timely := (timely_place number customer items time).after calls
  refine ⟨fun hs => ?_, fun hs => ?_⟩
  · have hsame : o.pack item Quantity.zero = o := by
      rcases ho.status with hset | ⟨hc, -⟩
      · exact pack_zero_of_settled hset item
      · exact absurd hc hs
    refine ⟨hsame, ?_⟩
    unfold packAnswer
    rw [hsame]
    simp
  · have hback := ho.pack_zero_of_collected hs item
    refine ⟨hback, ?_⟩
    unfold packAnswer
    rw [hback, hs]
    rfl

/-- An order of which too much is packed, of an item that it does not ask for. -/
theorem pack_zero_inert_overpacked :
    let o := (place ⟨1⟩ ⟨7⟩ [⟨"soda", .one⟩] (Timestamp.ofMillis 0)).after
      [.pack "soda" .one, .pack "fries" .one]
    o.status = .requested ∧ o.pack "fries" Quantity.zero = o := by
  refine ⟨by decide +kernel, ?_⟩
  exact ((pack_zero_inert ⟨1⟩ ⟨7⟩ [⟨"soda", .one⟩] (Timestamp.ofMillis 0)
    [.pack "soda" .one, .pack "fries" .one] "fries").1 (by decide +kernel)).1

/-- **Packing no units takes back an order that was handed over.** -/
theorem pack_zero_reopens :
    let o := (place ⟨1⟩ ⟨7⟩ [⟨"soda", .one⟩] (Timestamp.ofMillis 0)).after
      [.pack "soda" .one, .collect]
    o.status = .collected ∧ ¬ (o.packAnswer "soda" Quantity.zero = false) ∧
      (o.pack "soda" Quantity.zero).status = .ready := by
  decide +kernel

end Order

end Takeaway
