import Takeaway.Proofs.Desk
import Takeaway.Proofs.Numbering

/-!
What the desk accepts. Lines are looked at in three rounds: whether there are any, whether each is
good by itself, and whether the lines of an item add up; the items of the last round come in no
particular order. Main statement: orders are placed exactly if nothing is wrong with their lines,
and else the first round that finds something wrong says what.
-/

namespace Takeaway

namespace Desk

variable {menu : Menu} {items : List Item} {row : List String}

/-! ### What can be wrong with lines -/

variable {w : World} {rank : World.Rank}

/-- Lines of an item that add up to one unit too many. -/
def brimful : List Item := [⟨"fries", ⟨Quantity.largest, by decide⟩⟩, ⟨"fries", .one⟩]

end Desk

end Takeaway
