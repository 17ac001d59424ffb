import Takeaway.Desk
import Takeaway.Proofs.Coverage.Fair

/-!
The desk takes in sound orders: the lines that it accepts are for some units of items on the menu,
and no item adds up to more than a quantity holds. Main statements: which lines are accepted, and
placing an order is fair.
-/

namespace Takeaway

namespace Desk

variable {m : Menu} {items : List Item}

/-! ### Lines that are accepted -/

theorem checkLines_ok : checkLines m items = .ok () ↔
    ∀ i ∈ items, m.contains i.name = true ∧ 0 < i.quantity.units := by
  induction items with
  | nil => simp [checkLines]
  | cons i r ih =>
    rw [List.forall_mem_cons, ← ih, checkLines]
    unfold Menu.entry Index.contains
    cases hf : m.find? i.name with
    | none => simp [bind, Except.bind]
    | some entry =>
      by_cases h0 : i.quantity.units = 0
      · simp [bind, Except.bind, h0]
      · simp [bind, Except.bind, h0, Nat.pos_of_ne_zero h0]

theorem checkTotals_ok : checkTotals items = .ok () ↔
    ∀ n, Item.unitsOf n items ≤ Quantity.largest := by
  unfold checkTotals
  constructor
  · intro h n
    split at h
    · cases h
    · next hnone =>
      by_cases hn : n ∈ Item.names items
      · have := List.find?_eq_none.1 hnone n hn
        simpa using this
      · rw [Item.unitsOf_eq_zero fun i hi hin => hn (Item.mem_names.2 ⟨i, hi, hin⟩)]
        exact Nat.zero_le _
  · intro h
    have hnone : ((Item.names items).find? fun n =>
        decide (Quantity.largest < Item.unitsOf n items)) = none := by
      refine List.find?_eq_none.2 fun n _ => ?_
      have := h n
      simpa using this
    rw [hnone]

/-- The orders that are accepted. -/
theorem check_ok : check m items = .ok () ↔ items ≠ [] ∧
    (∀ i ∈ items, m.contains i.name = true ∧ 0 < i.quantity.units) ∧
    ∀ n, Item.unitsOf n items ≤ Quantity.largest := by
  rw [← checkLines_ok, ← checkTotals_ok]
  unfold check
  cases items with
  | nil => simp [bind, Except.bind]
  | cons i r =>
    rcases checkLines m (i :: r) with f | ⟨⟩ <;> simp [bind, Except.bind]

/-! ### Placing and looking up -/

variable {g : Takings}

/-- An order whose lines were accepted is backed, since nothing is packed for it. -/
theorem backed_place (h : check m items = .ok ()) (n : OrderNumber) (customer : CustomerId)
    (time : Timestamp) : (Order.place n customer items time).Backed m g := by
  obtain ⟨hne, hi, ht⟩ := check_ok.1 h
  exact ⟨Order.Sound.place hne hi ht n customer time, fun _ _ => Nat.zero_le _⟩

theorem fair_place (customer : CustomerId) :
    FairWork m (place m customer items) g fun _ _ => True := by
  unfold place
  refine FairWork.bind (p := fun _ _ => check m items = .ok ()) ?_ fun _ g₁ _ hc => ?_
  · rintro a ha
    rcases hcheck : check m items with f | ⟨⟩
    · rw [hcheck] at ha; cases ha
    · rfl
  refine FairWork.bind (p := fun _ _ => True) (fairWork_mapError _ ?_) fun n g₂ _ _ => ?_
  · refine Flow.Fair.bind (Flow.Quiet.fair ?_ g₁) fun _ g' _ _ => ?_
    · exact quiet_lagOf _
    · exact ⟨trivial, ⟨0⟩, fun _ _ _ _ _ _ => trivial⟩
  refine FairWork.bind (fairWork_lift (Flow.Quiet.fair (Flow.quiet_ask rfl) g₂))
    fun time g₃ _ _ => ?_
  refine FairWork.bind (p := fun _ _ => True) (fairWork_mapError _ ?_) fun _ g₄ _ _ => ?_
  · exact (fair_saveOrder (backed_place hc n customer time)).imp fun _ _ _ _ _ _ => trivial
  · refine FairWork.bind (fairWork_lift (Flow.Quiet.fair (quiet_count _) g₄)) fun _ _ _ _ => ?_
    exact fairWork_pure trivial

theorem fair_require (n : OrderNumber) :
    FairWork m (require n) g fun o g' => o.Backed m g' ∧ o.number = n := by
  unfold require get
  refine FairWork.bind (fairWork_mapError (p := fun r g' =>
    ∀ o, r = some o → o.Backed m g' ∧ o.number = n) _ ?_) fun r g₁ _ hr => ?_
  · exact (fair_fetchOrder n).imp fun r g' _ hr a ha o ho => hr o (by rw [ha, ho])
  · cases r with
    | some o => exact fairWork_pure (hr o rfl)
    | none => exact fairWork_throw _

end Desk

end Takeaway
