import Takeaway.Text.Blank
import Takeaway.Text.Quoted

/-!
Order numbers and customer ids. An order number is written in decimal, and read back from text
with blanks around it, an optional sign and any number of leading zeros, as long as it fits in 64
binary digits.
-/

namespace Takeaway

/-- The number of an order. -/
structure OrderNumber where
  value : Int
deriving DecidableEq

namespace OrderNumber

instance : LT OrderNumber := ⟨fun a b => a.value < b.value⟩

instance : DecidableRel (α := OrderNumber) (· < ·) := fun a b =>
  inferInstanceAs (Decidable (a.value < b.value))

instance : Std.Irrefl (α := OrderNumber) (· < ·) := ⟨fun a => Int.lt_irrefl a.value⟩

instance : Trans (α := OrderNumber) (· < ·) (· < ·) (· < ·) := ⟨fun h₁ h₂ => Int.lt_trans h₁ h₂⟩

instance : Std.Trichotomous (α := OrderNumber) (· < ·) :=
  ⟨fun a b h₁ h₂ => by
    have h₁ : ¬ a.value < b.value := h₁
    have h₂ : ¬ b.value < a.value := h₂
    have : a.value = b.value := by omega
    cases a; cases b; simp_all⟩

/-- The number of the first order of a fresh store. -/
def first : OrderNumber := ⟨1⟩

/-- The number after this one. -/
def next (n : OrderNumber) : OrderNumber := ⟨n.value + 1⟩

/-- Whether a number fits in 64 binary digits, as every number that was read does. -/
def Fits (n : OrderNumber) : Prop := Text.fitsSigned 64 n.value = true

/-- The number in decimal. -/
def text (n : OrderNumber) : String := String.ofList (Text.ofInt n.value)

/-- A text that is no order number, as it was given. -/
structure Unreadable where
  given : String
deriving DecidableEq

/-- The wording of a text that is no order number. -/
def Unreadable.message (e : Unreadable) : String := "invalid order number: " ++ Text.quoted e.given

/-- Reads an order number, leaving out the blanks around it. -/
def read (s : String) : Except Unreadable OrderNumber :=
  match Text.intWithin? 64 (Text.trim s.toList) with
  | some n => .ok ⟨n⟩
  | none => .error ⟨s⟩

end OrderNumber

/-- The customer who placed an order. -/
structure CustomerId where
  value : Int
deriving DecidableEq

namespace CustomerId

/-- The id in decimal. -/
def text (c : CustomerId) : String := String.ofList (Text.ofInt c.value)

/-- Whether an id fits in 64 binary digits, as every id that was read does. -/
def Fits (c : CustomerId) : Prop := Text.fitsSigned 64 c.value = true

end CustomerId

end Takeaway
