/-!
Quantities: counts of units of one item. A quantity is at most `Quantity.largest`, which is part
of the type, so a sum that would pass it has to be capped or refused.
-/

namespace Takeaway

/-- A count of units, at most 4294967295. -/
structure Quantity where
  units : Nat
  fits : units ≤ 4294967295 := by decide
deriving DecidableEq

namespace Quantity

/-- The largest count that a quantity holds. -/
def largest : Nat := 4294967295

/-- No units. -/
def zero : Quantity := ⟨0, by decide⟩

/-- One unit. -/
def one : Quantity := ⟨1, by decide⟩

instance : Inhabited Quantity := ⟨zero⟩

/-- A number as a quantity, if it is small enough. -/
def ofNat? (n : Nat) : Option Quantity :=
  if h : n ≤ 4294967295 then some ⟨n, h⟩ else none

/-- A number as a quantity; what is above the largest one is dropped. -/
def capped (n : Nat) : Quantity := ⟨min n 4294967295, Nat.min_le_right _ _⟩

/-- The smaller of two quantities. -/
def least (a b : Quantity) : Quantity := ⟨min a.units b.units, by have := a.fits; omega⟩

/-- What is left of a quantity after another is taken away, nothing if that is larger. -/
def less (a b : Quantity) : Quantity := ⟨a.units - b.units, by have := a.fits; omega⟩

@[ext] theorem ext {a b : Quantity} (h : a.units = b.units) : a = b := by
  cases a; cases b; simp_all

theorem capped_units_of_le {n : Nat} (h : n ≤ 4294967295) : (capped n).units = n :=
  Nat.min_eq_left h

@[simp] theorem capped_units (q : Quantity) : capped q.units = q :=
  ext (capped_units_of_le q.fits)

end Quantity

end Takeaway
