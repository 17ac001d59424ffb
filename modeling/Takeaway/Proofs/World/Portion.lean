import Takeaway.Proofs.Coverage.LowestFirst
import Takeaway.Proofs.World.Logs

/-!
What there is for each order when an item is handed out, the lowest number first. Main statements:
once an order was given its portion it has none left to come, and the portions of all others stay
what they are; no more than one order is given some but not all of what it misses; and packing other
items changes no portion.
-/

namespace Takeaway.World

open Coverage

variable {m : Menu} {w w' : World} {n k : OrderNumber} {item i : String} {o : Order}
  {g : OrderNumber → List Item} {a : Multiset Envelope}

/-- Units of an item that the orders with lower numbers miss. -/
def ahead (w : World) (n : OrderNumber) (item : String) : Nat :=
  w.orders.total fun o => if o.number < n then o.short item else 0

/-- Units of an item in stock that are for the order of a number. -/
def portion (w : World) (n : OrderNumber) (item : String) : Nat :=
  min (w.shortOf n item) (w.onHand item - w.ahead n item)

/-- The line that an order is given of an item, if there is any for it. -/
def portionLine (w : World) (item : String) (n : OrderNumber) : List Item :=
  line item (Quantity.capped (w.portion n item))

/-- The order as it is written back when it was given its portion, if there is any for it. -/
def saves (w : World) (item : String) (n : OrderNumber) : List Order :=
  match w.orders.find? n with
  | none => []
  | some o =>
    if w.portionLine item n = [] then [] else [o.logged (w.portionLine item n)]

/-- What the kitchen is to be asked for when the orders were given their portions: what is still
missing of an order that was given some. -/
def cuts (w : World) (item : String) (n : OrderNumber) : List (OrderNumber × Item) :=
  if w.portion n item = 0 then []
  else (line item (Quantity.capped (w.shortOf n item - w.portion n item))).map fun i => (n, i)

/-- The new status of an order that was given its portion, if it is another one. -/
def news (w : World) (item : String) (n : OrderNumber) : List (OrderNumber × Status) :=
  match w.orders.find? n with
  | none => []
  | some o =>
    if (o.logged (w.portionLine item n)).status = o.status then []
    else [(n, (o.logged (w.portionLine item n)).status)]

/-! ### Portions -/

theorem portion_le_shortOf (w : World) (n : OrderNumber) (item : String) :
    w.portion n item ≤ w.shortOf n item := Nat.min_le_left _ _

theorem Orderly.shortOf_le (hw : w.Orderly m) (n : OrderNumber) (item : String) :
    w.shortOf n item ≤ Quantity.largest := by
  cases ho : w.orders.find? n with
  | none =>
    unfold shortOf
    rw [ho]
    exact Nat.zero_le _
  | some o =>
    rw [shortOf_eq ho]
    exact (hw.sound n o ho).1.short_le item

theorem Orderly.portion_units (hw : w.Orderly m) (n : OrderNumber) (item : String) :
    (Quantity.capped (w.portion n item)).units = w.portion n item := by
  have h₁ := w.portion_le_shortOf n item
  have h₂ := hw.shortOf_le n item
  exact Quantity.capped_units_of_le (h₁.trans h₂)

theorem portionLine_of_zero (h : w.portion n item = 0) : w.portionLine item n = [] := by
  unfold portionLine
  rw [h]
  rfl

theorem saves_of_zero (h : w.portion n item = 0) : w.saves item n = [] := by
  unfold saves
  split
  · rfl
  · exact if_pos (portionLine_of_zero h)

theorem cuts_of_zero (h : w.portion n item = 0) : w.cuts item n = [] := if_pos h

theorem news_of_zero (h : w.portion n item = 0) : w.news item n = [] := by
  unfold news
  rw [portionLine_of_zero h]
  split
  · rfl
  · exact if_pos rfl

/-- What is ahead of an order, and what it misses itself, is ahead of those behind it. -/
theorem ahead_add_shortOf (item : String) (ho : w.orders.find? n = some o) (hn : o.number = n)
    (hlt : n < k) :
    w.ahead n item + w.shortOf n item ≤ w.ahead k item := by
  have hone : o.short item ≤ w.orders.total fun x => if x.number = n then x.short item else 0 := by
    have := Index.le_total (fun x => if x.number = n then x.short item else 0) ho
    simpa [hn] using this
  rw [shortOf_eq ho]
  refine (Nat.add_le_add_left hone _).trans ?_
  unfold ahead
  rw [← Index.total_add]
  refine Index.total_le fun k' x hx => ?_
  by_cases hx₁ : x.number = n
  · have hnot : ¬ x.number < n := hx₁ ▸ Std.Irrefl.irrefl (r := (· < ·)) _
    rw [if_neg hnot, if_pos hx₁, if_pos (hx₁ ▸ hlt), Nat.zero_add]
  · rw [if_neg hx₁, Nat.add_zero]
    split
    · next hx₂ => rw [if_pos (Trans.trans hx₂ hlt : x.number < k)]
    · exact Nat.zero_le _

/-- One order at most is given some but not all of what it misses: behind it there is nothing
left, and before it nobody misses any. -/
theorem cuts_unique (hw : w.Orderly m) (hn : w.cuts item n ≠ []) (hk : w.cuts item k ≠ []) :
    n = k := by
  have hcut : ∀ j, w.cuts item j ≠ [] → 0 < w.portion j item ∧
      w.portion j item < w.shortOf j item := by
    intro j hj
    unfold cuts at hj
    split at hj
    · exact absurd rfl hj
    · next hpos =>
      refine ⟨Nat.pos_of_ne_zero hpos, ?_⟩
      by_contra hle
      have hsub : w.shortOf j item - w.portion j item = 0 := by omega
      rw [hsub] at hj
      exact hj rfl
  -- the one behind would be given units that are for the one before
  have hbehind : ∀ j i, j < i → w.cuts item j ≠ [] → w.cuts item i ≠ [] → False := by
    intro j i hlt hj hi
    obtain ⟨-, hless⟩ := hcut j hj
    obtain ⟨hpos, -⟩ := hcut i hi
    obtain ⟨o, ho, hnumber, -⟩ := hw.isOpen_of_shortOf (n := j) (i := item) (by omega)
    have hahead := ahead_add_shortOf item ho hnumber hlt
    unfold portion at hless hpos
    omega
  rcases Std.lt_trichotomy n k with h | h | h
  · exact (hbehind n k h hn hk).elim
  · exact h
  · exact (hbehind k n h hk hn).elim

/-! ### Worlds compared -/

theorem portion_congr (hs : w'.shortOf n item = w.shortOf n item)
    (ha : w'.ahead n item = w.ahead n item) (hk : w'.onHand item = w.onHand item) :
    w'.portion n item = w.portion n item := by
  unfold portion
  rw [hs, ha, hk]

theorem portionLine_congr (hp : w'.portion n item = w.portion n item) :
    w'.portionLine item n = w.portionLine item n := by
  unfold portionLine
  rw [hp]

theorem cuts_congr (hs : w'.shortOf n item = w.shortOf n item)
    (hp : w'.portion n item = w.portion n item) : w'.cuts item n = w.cuts item n := by
  unfold cuts
  rw [hs, hp]

theorem saves_congr (ho : w'.orders.find? n = w.orders.find? n)
    (hp : w'.portion n item = w.portion n item) : w'.saves item n = w.saves item n := by
  unfold saves
  rw [ho, portionLine_congr hp]

theorem news_congr (ho : w'.orders.find? n = w.orders.find? n)
    (hp : w'.portion n item = w.portion n item) : w'.news item n = w.news item n := by
  unfold news
  rw [ho, portionLine_congr hp]

/-- Where only other items were packed, what there is of an item is what there was. -/
theorem Logs.portion (h : Logs g w w') (hg : ∀ n, Item.unitsOf item (g n) = 0)
    (hk : w'.onHand item = w.onHand item) (n : OrderNumber) :
    w'.portion n item = w.portion n item := by
  refine portion_congr ?_ (h.total fun k o o' _ hgains => ?_) hk
  · rw [h.shortOf, hg, Nat.sub_zero]
  · rw [hgains.number, hgains.short, hg, Nat.sub_zero]

/-! ### The next in turn -/

section Next

/-- A measure that does not look at time stamps changes by what becomes of the one order. -/
theorem total_covered (items : List String) (hw : w.Orderly m)
    (ho : w.orders.find? o.number = some o) {f : Order → Nat}
    (hf : ∀ x time, f (Order.touch x time) = f x) :
    (w.covered m items o).orders.total f + f o =
      w.orders.total f + f (filled m items o w.stock).order := by
  unfold covered
  dsimp only
  split
  · next hp => rw [((filled_follows items (hw.sound _ _ ho).1 w.stock).idle hp).1]
  · exact total_replaced (replaces_filled items hw ho) hf

variable (hw : w.Orderly m) (ho : w.orders.find? o.number = some o)
  (hlower : ∀ k < o.number, w.shortOf k item = 0)
include hw ho hlower

/-- There is nobody ahead of the order that is the next to miss an item. -/
theorem portion_next : w.portion o.number item = min (o.short item) (w.onHand item) := by
  have hnone : w.ahead o.number item = 0 := by
    have hle : w.ahead o.number item ≤ w.orders.total fun _ => 0 := by
      refine Index.total_le fun k x hx => ?_
      split
      · next hlt =>
        obtain ⟨-, hnumber⟩ := hw.sound k x hx
        have := hlower k (hnumber ▸ hlt)
        rw [shortOf_eq hx] at this
        omega
      · exact Nat.zero_le _
    have hzero : (w.orders.total fun _ : Order => 0) = 0 := by
      unfold Index.total
      simp
    omega
  unfold portion
  rw [hnone, shortOf_eq ho, Nat.sub_zero]

variable (hitem : m.isInstant item = .ok false)
include hitem

/-- **A pass gives the next order its portion**, and the kitchen is to be asked for what it still
misses. -/
theorem filled_next :
    (filled m [item] o w.stock).packed = w.portionLine item o.number ∧
      (filled m [item] o w.stock).requests =
        line item (Quantity.capped (o.short item - w.portion o.number item)) := by
  have hsound := (hw.sound _ _ ho).1
  have hnext := portion_next hw ho hlower
  obtain ⟨hpacked, hrequests⟩ := filled_exact m (List.nodup_singleton item) o w.stock
  obtain ⟨htaken, hshortfall⟩ := share_units hsound w.stock item
  rw [hitem, if_neg (by simp), min_comm] at htaken
  have hunits : (share m o w.stock item).taken.units = w.portion o.number item := by
    rw [htaken, hnext]
    rfl
  rw [List.flatMap_singleton] at hpacked hrequests
  rw [hpacked, hrequests]
  unfold portionLine
  constructor
  · rw [← hunits, Quantity.capped_units]
  · rw [← hunits, ← hshortfall, Quantity.capped_units]

/-- What is to be written, told and asked for when the next order was given its portion. -/
theorem deeds_next (hpos : 0 < w.portion o.number item) :
    w.saves item o.number = [(filled m [item] o w.stock).order] ∧
      w.news item o.number = (if (filled m [item] o w.stock).order.status = o.status then []
        else [(o.number, (filled m [item] o w.stock).order.status)]) ∧
      w.cuts item o.number =
        (filled m [item] o w.stock).requests.map fun i => (o.number, i) := by
  obtain ⟨hpacked, hrequests⟩ := filled_next hw ho hlower hitem
  have hline : w.portionLine item o.number ≠ [] := by
    unfold portionLine
    rw [Ne, line_eq_nil, hw.portion_units]
    omega
  rw [filled_order, hpacked, hrequests]
  unfold saves news cuts
  rw [ho, shortOf_eq ho]
  exact ⟨if_neg hline, rfl, if_neg (by omega)⟩

theorem short_filled_next : (filled m [item] o w.stock).order.short item =
    o.short item - w.portion o.number item := by
  obtain ⟨hpacked, -⟩ := filled_next hw ho hlower hitem
  rw [filled_order, Order.logged_short, hpacked]
  unfold portionLine
  rw [unitsOf_line, if_pos rfl, hw.portion_units]

theorem short_covered_next :
    (w.covered m [item] o).short item + w.portion o.number item = w.short item := by
  have hle := w.portion_le_shortOf o.number item
  have htotal := total_covered [item] hw ho (f := fun x => x.short item) fun _ _ => rfl
  rw [short_filled_next hw ho hlower hitem] at htotal
  rw [shortOf_eq ho] at hle
  unfold short
  omega

/-- The portion is taken from stock, and nothing else. -/
theorem lost_next : Stock.Lost (fun i => if i = item then w.portion o.number item else 0) w.stock
    (w.covered m [item] o).stock := by
  obtain ⟨hpacked, -⟩ := filled_next hw ho hlower hitem
  refine (lost_covered [item] (hw.sound _ _ ho).1).congr fun i => ?_
  rw [hpacked]
  unfold portionLine
  rw [unitsOf_line, hw.portion_units]
  by_cases hi : i = item
  · rw [hi, hitem, if_neg (by simp), if_pos rfl]
  · rw [if_neg (Ne.symm hi), if_neg hi, ite_self]

theorem onHand_covered_next :
    (w.covered m [item] o).onHand item + w.portion o.number item = w.onHand item := by
  have hlost := (lost_next hw ho hlower hitem).onHand item
  rwa [if_pos rfl] at hlost

/-- **An order that was given its portion has none left to come**, and the portions of all others
stay what they are. -/
theorem portion_covered (n : OrderNumber) : (w.covered m [item] o).portion n item =
    if n = o.number then 0 else w.portion n item := by
  have hnext := portion_next hw ho hlower
  have hshort := short_filled_next hw ho hlower hitem
  have hstock := onHand_covered_next hw ho hlower hitem
  have hle := w.portion_le_shortOf o.number item
  by_cases hn : n = o.number
  · subst hn
    rw [if_pos rfl]
    show min ((w.covered m [item] o).shortOf o.number item) _ = 0
    rw [shortOf_covered _ hw ho, hshort]
    omega
  · have hsame : (w.covered m [item] o).shortOf n item = w.shortOf n item :=
      shortOf_covered_one hw ho (.inl hn)
    rw [if_neg hn]
    rcases Std.lt_trichotomy n o.number with hlt | heq | hgt
    · -- whoever stands before the order misses nothing
      have h0 := hlower n hlt
      unfold portion
      rw [hsame, h0, Nat.zero_min, Nat.zero_min]
    · exact absurd heq hn
    · have htotal := total_covered [item] hw ho
        (f := fun x => if x.number < n then x.short item else 0) fun x time => rfl
      have hnumber := (filled_follows [item] (hw.sound _ _ ho).1 w.stock).number
      rw [hnumber, if_pos hgt, if_pos hgt, hshort] at htotal
      have hahead := ahead_add_shortOf item ho rfl hgt
      rw [shortOf_eq ho] at hahead hle
      show min ((w.covered m [item] o).shortOf n item)
        ((w.covered m [item] o).onHand item - (w.covered m [item] o).ahead n item) =
        min (w.shortOf n item) (w.onHand item - w.ahead n item)
      have hrest : (w.covered m [item] o).onHand item - (w.covered m [item] o).ahead n item =
          w.onHand item - w.ahead n item := by
        unfold ahead at hahead ⊢
        omega
      rw [hsame, hrest]

end Next

end Takeaway.World
