import Takeaway.Proofs.Coverage.InTurn
import Takeaway.Proofs.History

/-!
What an arrival of an item comes to. Main statement: whether or not sending works, the orders that
miss the item are given what is there in the order of their numbers, each all that it misses as long
as there is enough; and the kitchen is asked once at most, for the rest of the one order that was
given some of what it misses but not all.
-/

namespace Takeaway

open World (Aside Orderly)

variable {w w' : World} {m : Menu} {item : String} {n : OrderNumber} {o : Order}

/-! ### Rows -/

/-- Elements that measure nothing may be left out of a sum. -/
theorem List.sum_map_filter {α : Type} (f : α → Nat) {p : α → Bool} {l : List α}
    (h : ∀ a ∈ l, p a = false → f a = 0) : ((l.filter p).map f).sum = (l.map f).sum := by
  induction l with
  | nil => rfl
  | cons a r ih =>
    obtain ⟨ha, hr⟩ := List.forall_mem_cons.1 h
    have ih := ih hr
    rw [List.filter_cons]
    split
    · rw [List.map_cons, List.sum_cons, List.map_cons, List.sum_cons, ih]
    · next hp =>
      have h0 := ha (Bool.eq_false_iff.2 hp)
      rw [List.map_cons, List.sum_cons, ih, h0, Nat.zero_add]

/-- Where one element at most contributes, and one thing at most, there is one thing at most. -/
theorem List.length_flatMap_le_one {α β : Type} {g : α → List β} {l : List α} (hl : l.Nodup)
    (hone : ∀ a ∈ l, (g a).length ≤ 1) (hsame : ∀ a b, g a ≠ [] → g b ≠ [] → a = b) :
    (l.flatMap g).length ≤ 1 := by
  induction l with
  | nil => exact Nat.zero_le _
  | cons a r ih =>
    obtain ⟨ha, hr⟩ := List.nodup_cons.1 hl
    obtain ⟨h₁, hrest⟩ := List.forall_mem_cons.1 hone
    rw [List.flatMap_cons, List.length_append]
    by_cases hg : g a = []
    · have := ih hr hrest
      rw [hg, List.length_nil]
      omega
    · have hnone : r.flatMap g = [] := by
        refine List.flatMap_eq_nil_iff.2 fun b hb => ?_
        by_contra hne
        exact ha (hsame a b hg hne ▸ hb)
      rw [hnone, List.length_nil]
      omega

namespace World

/-! ### The queue for an item -/

/-- The open orders that ask for an item and miss some of it, in ascending order of number. -/
def queue (w : World) (item : String) : List Order :=
  w.orders.values.filter fun o =>
    o.status.isOpen && o.requests item && decide (0 < o.short item)

section Queue

variable (hw : w.Orderly m)
include hw

/-- Whoever misses some of an item is in the queue for it. -/
theorem mem_queue : o ∈ w.queue item ↔ w.orders.find? o.number = some o ∧ 0 < o.short item := by
  unfold queue
  rw [List.mem_filter, hw.mem_values]
  refine and_congr_right fun ho => ?_
  have hsound := (hw.sound _ o ho).1
  simp only [Bool.and_eq_true, decide_eq_true_eq]
  constructor
  · exact fun h => h.2
  · exact fun h => ⟨⟨hsound.isOpen_iff_short.2 ⟨item, h⟩, hsound.requests_of_short h⟩, h⟩

theorem queue_ascending (item : String) : ((w.queue item).map fun o => o.number).Pairwise (· < ·) :=
  hw.numbers_ascending.sublist (List.filter_sublist.map _)

/-- Who is not in the queue misses nothing. -/
theorem short_of_not_queued {x : Order} (hx : x ∈ w.orders.values)
    (h : (x.status.isOpen && x.requests item && decide (0 < x.short item)) = false) :
    x.short item = 0 := by
  by_contra hne
  have hmem := (mem_queue hw).2 ⟨hw.mem_values.1 hx, Nat.pos_of_ne_zero hne⟩
  rw [(List.mem_filter.1 hmem).2] at h
  cases h

theorem short_eq_queue : w.short item = ((w.queue item).map fun o => o.short item).sum :=
  (List.sum_map_filter _ fun _ hx h => short_of_not_queued hw hx h).symm

/-- What is ahead of an order in the queue is what those before it miss. -/
theorem ahead_eq_queue {front behind : List Order} (h : w.queue item = front ++ o :: behind) :
    w.ahead o.number item = (front.map fun x => x.short item).sum := by
  have hsum : ((w.queue item).map fun x => if x.number < o.number then x.short item else 0).sum =
      w.ahead o.number item := by
    refine List.sum_map_filter _ fun x hx hq => ?_
    rw [short_of_not_queued hw hx hq, ite_self]
  have hascending := queue_ascending hw item
  rw [h, List.map_append, List.map_cons] at hascending
  obtain ⟨-, hbehind, hfront⟩ := List.pairwise_append.1 hascending
  have hlater := (List.pairwise_cons.1 hbehind).1
  have hirr : ¬ o.number < o.number := Std.Irrefl.irrefl (r := (· < ·)) _
  have h₁ : (front.map fun x => if x.number < o.number then x.short item else 0) =
      front.map fun x => x.short item := by
    refine List.map_congr_left fun x hx => if_pos ?_
    exact hfront _ (List.mem_map_of_mem hx) _ (List.mem_cons_self ..)
  have h₂ : (behind.map fun x => if x.number < o.number then x.short item else 0) =
      behind.map fun _ => 0 := by
    refine List.map_congr_left fun x hx => if_neg fun hlt => ?_
    exact hirr (Trans.trans (hlater _ (List.mem_map_of_mem hx)) hlt)
  rw [← hsum, h, List.map_append, List.map_cons, List.sum_append, List.sum_cons, h₁, h₂,
    if_neg hirr]
  simp

/-- What there is for an order is what those before it leave of the item. -/
theorem portion_eq_queue {front behind : List Order} (h : w.queue item = front ++ o :: behind) :
    w.portion o.number item =
      min (o.short item) (w.onHand item - (front.map fun x => x.short item).sum) := by
  have hmem : o ∈ w.queue item := by simp [h]
  unfold portion
  rw [shortOf_eq ((mem_queue hw).1 hmem).1, ahead_eq_queue hw h]

end Queue

/-- An item was handed out to those in the queue for it, the lowest number first. -/
structure Shares (w : World) (item : String) (l : List Deed) (w' : World) : Prop where
  turns : ((w.queue item).map fun o => o.number).Pairwise (· < ·)
  /-- There is as much for an order as it misses, or as those before it leave. -/
  portion : ∀ front o behind, w.queue item = front ++ o :: behind →
    w.portion o.number item =
      min (o.short item) (w.onHand item - (front.map fun x => x.short item).sum)
  /-- That is what it is given, in one line if there is any. -/
  given : ∀ o ∈ w.queue item, ∃ o' q, w'.orders.find? o.number = some o' ∧
    q.units = w.portion o.number item ∧ o.Gains (Coverage.line item q) o'
  others : ∀ n, (∀ o ∈ w.queue item, o.number ≠ n) → w'.orders.find? n = w.orders.find? n
  left : w'.onHand item = w.onHand item - ((w.queue item).map fun o => o.short item).sum
  kept : ∀ i, i ≠ item → w'.onHand i = w.onHand i
  /-- Only orders that are given some are written back. -/
  saved : (Deeds.saved l).map (·.number) =
    ((w.queue item).map fun o => o.number).filter fun n => decide (0 < w.portion n item)
  /-- The kitchen is asked for the rest of an order that is given some but not all. -/
  tried : ∃ rs, rs.length ≤ 1 ∧ Tried rs (Deeds.sent l) ∧ ∀ n i, (n, i) ∈ rs ↔
    ∃ o ∈ w.queue item, o.number = n ∧ 0 < w.portion n item ∧
      w.portion n item < o.short item ∧ i.name = item ∧
      i.quantity.units = o.short item - w.portion n item

/-! ### What handing out comes to -/

/-- The orders that are written back are those with a portion. -/
theorem map_saves (w : World) (item : String) {keys : List OrderNumber}
    (hkeys : ∀ n ∈ keys, ∃ o, w.orders.find? n = some o ∧ o.number = n)
    (hline : ∀ n, w.portionLine item n = [] ↔ w.portion n item = 0) :
    (keys.flatMap (w.saves item)).map (·.number) =
      keys.filter fun n => decide (0 < w.portion n item) := by
  induction keys with
  | nil => rfl
  | cons n r ih =>
    obtain ⟨⟨o, ho, hnumber⟩, hr⟩ := List.forall_mem_cons.1 hkeys
    rw [List.flatMap_cons, List.map_append, ih hr, List.filter_cons]
    unfold saves
    rw [ho]
    by_cases h0 : w.portion n item = 0
    · simp [(hline n).2 h0, h0]
    · simp [(hline n).not.2 h0, Nat.pos_of_ne_zero h0, hnumber]

section HandedOut

variable (hw : w.Orderly m)
include hw

theorem portionLine_eq_nil (n : OrderNumber) :
    w.portionLine item n = [] ↔ w.portion n item = 0 := by
  unfold portionLine
  rw [Coverage.line_eq_nil, hw.portion_units]

/-- The numbers in the queue for an item are those of orders that miss some of it. -/
theorem queue_numbers {p : OrderNumber → Bool}
    (hp : ∀ n, p n = true → 0 < w.shortOf n item) :
    ((w.queue item).map fun o => o.number).filter p = w.orders.keys.filter p := by
  have hkeys : w.orders.keys = w.orders.values.map fun o => o.number := by
    unfold Index.values Index.keys
    rw [List.map_map]
    exact List.map_congr_left fun x hx => (hw.sound _ _ (Index.find?_eq_some_iff.2 hx)).2.symm
  rw [hkeys, List.filter_map, List.filter_map]
  unfold queue
  rw [List.filter_filter]
  refine congrArg _ (List.filter_congr fun x hx => ?_)
  have hfind := hw.mem_values.1 hx
  by_cases hpx : p x.number = true
  · have hshort := hp _ hpx
    rw [shortOf_eq hfind] at hshort
    have hmem := (mem_queue hw).2 ⟨hfind, hshort⟩
    have hqueued := (List.mem_filter.1 hmem).2
    simp only [Function.comp_apply, hpx, hqueued, Bool.and_self]
  · simp only [Function.comp_apply, Bool.eq_false_iff.2 hpx, Bool.false_and]

theorem mem_cuts {i : Item} {k : OrderNumber} : (k, i) ∈ w.cuts item n ↔
    k = n ∧ 0 < w.portion n item ∧ w.portion n item < w.shortOf n item ∧ i.name = item ∧
      i.quantity.units = w.shortOf n item - w.portion n item := by
  have hunits : (Quantity.capped (w.shortOf n item - w.portion n item)).units =
      w.shortOf n item - w.portion n item :=
    Quantity.capped_units_of_le ((Nat.sub_le _ _).trans (hw.shortOf_le n item))
  unfold cuts Coverage.line
  rw [hunits]
  by_cases h0 : w.portion n item = 0
  · simp [h0]
  by_cases hall : w.shortOf n item - w.portion n item = 0
  · rw [if_neg h0, if_pos hall]
    constructor
    · intro h
      cases h
    · rintro ⟨-, -, hless, -⟩
      omega
  · rw [if_neg h0, if_neg hall]
    obtain ⟨name, q⟩ := i
    have hq : q = Quantity.capped (w.shortOf n item - w.portion n item) ↔
        q.units = w.shortOf n item - w.portion n item := by
      rw [Quantity.ext_iff, hunits]
    have hpos : 0 < w.portion n item := Nat.pos_of_ne_zero h0
    have hless : w.portion n item < w.shortOf n item := by omega
    simp [hq, hpos, hless]

/-- The kitchen is asked for the rest of one order at most. -/
theorem length_cuts_le_one (item : String) : (w.orders.keys.flatMap (w.cuts item)).length ≤ 1 := by
  refine List.length_flatMap_le_one w.orders.keys_nodup (fun n _ => ?_) fun n k => cuts_unique hw
  unfold cuts Coverage.line
  split
  · exact Nat.zero_le _
  · split <;> simp

/-- The order whose rest is asked for is in the queue, and given some of what it misses. -/
theorem mem_cuts_keys {i : Item} : (n, i) ∈ w.orders.keys.flatMap (w.cuts item) ↔
    ∃ o ∈ w.queue item, o.number = n ∧ 0 < w.portion n item ∧ w.portion n item < o.short item ∧
      i.name = item ∧ i.quantity.units = o.short item - w.portion n item := by
  rw [List.mem_flatMap]
  constructor
  · rintro ⟨k, hk, hmem⟩
    obtain ⟨rfl, hpos, hless, hname, hunits⟩ := (mem_cuts hw).1 hmem
    obtain ⟨o, ho⟩ := Index.mem_keys.1 hk
    obtain ⟨-, rfl⟩ := hw.sound _ o ho
    rw [shortOf_eq ho] at hless hunits
    exact ⟨o, (mem_queue hw).2 ⟨ho, by omega⟩, rfl, hpos, hless, hname, hunits⟩
  · rintro ⟨o, ho, rfl, hpos, hless, hname, hunits⟩
    have hfind := ((mem_queue hw).1 ho).1
    refine ⟨o.number, Index.mem_keys.2 ⟨o, hfind⟩, (mem_cuts hw).2 ?_⟩
    rw [shortOf_eq hfind]
    exact ⟨rfl, hpos, hless, hname, hunits⟩

/-- There is nothing for an order that is not in the queue. -/
theorem portion_of_not_queued (ho : w.orders.find? n = some o)
    (hn : ∀ x ∈ w.queue item, x.number ≠ n) : w.portion n item = 0 := by
  obtain ⟨-, hnumber⟩ := hw.sound n o ho
  by_contra hne
  have hle := w.portion_le_shortOf n item
  rw [shortOf_eq ho] at hle
  exact hn o ((mem_queue hw).2 ⟨by rw [hnumber]; exact ho, by omega⟩) hnumber

theorem shares_of_handsOut {l : List Deed} (h : Coverage.HandsOut item w l w') :
    w.Shares item l w' := by
  have hlost := h.lost.onHand
  constructor
  case turns => exact queue_ascending hw item
  case portion => exact fun front o behind hsplit => portion_eq_queue hw hsplit
  case given =>
    intro o ho
    obtain ⟨o', ho', hgains⟩ := h.logs.gains _ o ((mem_queue hw).1 ho).1
    exact ⟨o', _, ho', hw.portion_units _ _, hgains⟩
  case others =>
    intro n hn
    cases ho : w.orders.find? n with
    | none => exact h.logs.find?_eq_none.2 ho
    | some o =>
      obtain ⟨o', ho', hgains⟩ := h.logs.gains n o ho
      rw [portionLine_of_zero (portion_of_not_queued hw ho hn)] at hgains
      rw [ho', hgains.eq_of_nil]
  case left =>
    have hitem := hlost item
    rw [if_pos rfl] at hitem
    rw [← short_eq_queue hw]
    unfold World.onHand at hitem ⊢
    omega
  case kept =>
    intro i hi
    have hother := hlost i
    rwa [if_neg hi] at hother
  case saved =>
    rw [h.saved, map_saves w item (fun n hn => ?_) (portionLine_eq_nil hw), queue_numbers hw]
    · intro n hn
      have hle := w.portion_le_shortOf n item
      have hpos := of_decide_eq_true hn
      omega
    · obtain ⟨o, ho⟩ := Index.mem_keys.1 hn
      exact ⟨o, ho, (hw.sound n o ho).2⟩
  case tried => exact ⟨_, length_cuts_le_one hw item, h.tried, fun n i => mem_cuts_keys hw⟩

end HandedOut

end World

namespace Engine

/-- **An item that arrived is shared out in the order of the numbers**, whether or not sending
works: nobody is given any while an order with a lower number misses some, and the kitchen is asked
for the rest of one order at most. -/
theorem restock_shares (e : Engine) (ops : List Operation) (rank : World.Rank) (d : Deadline)
    (hstore : (e.after ops).store.store.answers = true) {item : String}
    (hitem : e.menu.isInstant item = .ok false) :
    WorkDoes rank (e.coverage.restock d item) (e.after ops) fun l _ w' =>
      (e.after ops).Shares item l w' := by
  have hw := World.orderly_after e ops
  refine (Coverage.does_restock d hw hstore hitem).imp ?_
  rintro l r w' ⟨h, -⟩
  exact World.shares_of_handsOut hw h

/-- Three orders wait for five units of which there are three, and sending does not work. -/
theorem restock_shares_fries :
    let fries (n : Nat) : List Item := [⟨"fries", Quantity.capped n⟩]
    let ops : List Operation := [.place ⟨7⟩ (fries 2), .place ⟨8⟩ (fries 2), .place ⟨9⟩ (fries 1),
      .addInventory "fries" (Quantity.capped 3), .switchBroker false]
    WorkDoes .first ((coverage {}).restock ⟨0, Span.zero⟩ "fries") (after {} ops) fun l _ w' =>
      (after {} ops).Shares "fries" l w' ∧
        ((after {} ops).queue "fries").map
            (fun o => (o.number, (after {} ops).portion o.number "fries")) =
          [(⟨1⟩, 2), (⟨2⟩, 1), (⟨3⟩, 0)] ∧
        w'.onHand "fries" = 0 := by
  intro fries ops
  refine (restock_shares {} ops .first ⟨0, Span.zero⟩ (by decide +kernel)
    (by decide +kernel)).imp ?_
  intro l _ w' h
  exact ⟨h, by decide +kernel, h.left.trans (by decide +kernel)⟩

end Engine

end Takeaway
