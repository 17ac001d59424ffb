import Takeaway.Quantity
import Takeaway.Text.Numeral

/-!
Lines of an order: an item with a count of units. A row of lines may name an item more than once;
what it holds of the item is the sum.
-/

namespace Takeaway

/-- Units of one item. -/
structure Item where
  name : String
  quantity : Quantity
deriving DecidableEq

namespace Item

/-- A line as it is shown. -/
def text (i : Item) : String := String.ofList (Text.ofNat i.quantity.units) ++ " x " ++ i.name

/-- The units of the named item in a row of lines. -/
def unitsOf (name : String) : List Item → Nat
  | [] => 0
  | i :: r => (if i.name = name then i.quantity.units else 0) + unitsOf name r

/-- All units in a row of lines. -/
def units : List Item → Nat
  | [] => 0
  | i :: r => i.quantity.units + units r

/-- The names of a row, each once, in the order of their first lines. -/
def names : List Item → List String
  | [] => []
  | i :: r => i.name :: (names r).filter fun n => n != i.name

/-! ### Sums and names of rows -/

@[simp] theorem unitsOf_append (name : String) (l₁ l₂ : List Item) :
    unitsOf name (l₁ ++ l₂) = unitsOf name l₁ + unitsOf name l₂ := by
  induction l₁ with
  | nil => simp [unitsOf]
  | cons i r ih => simp [unitsOf, ih, Nat.add_assoc]

@[simp] theorem units_append (l₁ l₂ : List Item) : units (l₁ ++ l₂) = units l₁ + units l₂ := by
  induction l₁ with
  | nil => simp [units]
  | cons i r ih => simp [units, ih, Nat.add_assoc]

theorem mem_names {n : String} {l : List Item} : n ∈ names l ↔ ∃ i ∈ l, i.name = n := by
  induction l with
  | nil => simp [names]
  | cons i r ih =>
    by_cases h : n = i.name
    · simp [names, h]
    · have : ¬ i.name = n := fun e => h e.symm
      simp [names, h, ih, this]

theorem names_nodup (l : List Item) : (names l).Nodup := by
  induction l with
  | nil => simp [names]
  | cons i r ih =>
    exact List.nodup_cons.2 ⟨by simp, List.Pairwise.filter _ ih⟩

end Item

end Takeaway
