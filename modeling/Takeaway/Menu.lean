import Takeaway.Index
import Takeaway.Order.Refusal
import Takeaway.Time.Span

/-!
The menu: the items that can be ordered, each either handed out at once or prepared in the
kitchen and kept in stock.
-/

namespace Takeaway

/-- How an item is made. -/
structure Menu.Entry where
  /-- The item is handed out at once, without stock or kitchen. -/
  isInstant : Bool
  /-- The time that the kitchen needs for it. -/
  preparation : Span
deriving DecidableEq

/-- A menu. -/
abbrev Menu := Index String Menu.Entry

namespace Menu

/-- An item that is handed out at once. -/
def Entry.instant : Entry := ⟨true, Span.zero⟩

/-- An item that the kitchen prepares in the given time. -/
def Entry.prepared (time : Span) : Entry := ⟨false, time⟩

/-- The menu that is served unless another is given. -/
def standard : Menu := Index.ofList
  [("hamburger", .prepared (Span.seconds 4)),
   ("cheeseburger", .prepared (Span.seconds 5)),
   ("spicy-stripes", .prepared (Span.seconds 6)),
   ("nuggets", .prepared (Span.seconds 4)),
   ("fries", .prepared (Span.seconds 3)),
   ("soda", .instant),
   ("orange-juice", .instant),
   ("water", .instant)]

/-- The entry of an item, which has to be on the menu. -/
def entry (m : Menu) (name : String) : Except Refusal Entry :=
  match m.find? name with
  | some e => .ok e
  | none => .error (.unknownItem name)

/-- Whether an item is handed out at once. -/
def isInstant (m : Menu) (name : String) : Except Refusal Bool := (m.entry name).map (·.isInstant)

/-- The time that the kitchen needs for an item. -/
def preparation (m : Menu) (name : String) : Except Refusal Span :=
  (m.entry name).map (·.preparation)

/-- The names of the items that are kept in stock. -/
def stocked (m : Menu) : List String := (m.entries.filter fun e => !e.2.isInstant).map (·.1)

end Menu

end Takeaway
