import Takeaway.Fault
import Takeaway.Index
import Takeaway.Text.Quoted

/-!
The stock of prepared items: a count of units for every item that was ever put there. Counts are
capped; units are taken all or not at all.
-/

namespace Takeaway

/-- The units on hand. -/
structure Stock where
  counts : Index String Quantity := ∅
  /-- Whether additions are announced. -/
  announces : Bool := true
deriving DecidableEq

namespace Stock

/-- The units of an item on hand. -/
def onHand (s : Stock) (item : String) : Quantity := (s.counts.find? item).getD Quantity.zero

/-- Sets the count of an item. -/
def seed (s : Stock) (item : String) (q : Quantity) : Stock :=
  { s with counts := s.counts.insert item q }

/-- Whether units of an item would pass the largest count. -/
def overflows (s : Stock) (item : String) (q : Quantity) : Bool :=
  decide (Quantity.largest < (s.onHand item).units + q.units)

/-- Adds units of an item; those beyond the largest count are dropped. -/
def add (s : Stock) (item : String) (q : Quantity) : Stock :=
  s.seed item (Quantity.capped ((s.onHand item).units + q.units))

/-- Takes units of an item, if there are that many. -/
def take (s : Stock) (item : String) (q : Quantity) : Except Fault Stock :=
  if q.units = 0 then .ok s
  else if (s.onHand item).units < q.units then .error (.insufficient item q (s.onHand item))
  else .ok (s.seed item ((s.onHand item).less q))

/-- The stock as it is shown to those who look for mistakes in it. -/
def text (s : Stock) : String :=
  let one := fun (e : String × Quantity) =>
    Text.quoted e.1 ++ ": " ++ String.ofList (Text.ofNat e.2.units)
  "InventoryLedger \x7b counters: \x7b" ++ ", ".intercalate (s.counts.entries.map one) ++
    "\x7d, notifies: " ++ (if s.announces then "true" else "false") ++ " \x7d"

end Stock

end Takeaway
