import Takeaway.Proofs.Coverage.Pass
import Takeaway.Proofs.History

/-!
What covering a new order comes to. Main statement: an order that is open is given, of each item
that it asks for, as much of what it misses as there is, and the kitchen is asked for exactly the
rest; what is written, told, sent and reported says just that, and an order that is closed is left
alone.
-/

namespace Takeaway

open World (Aside)

/-- An action looks up the count of an item or changes it. -/
def Action.Handles (item : String) : Action → Prop
  | .onHand i | .take i _ | .add i _ => i = item
  | .inventory => True
  | _ => False

/-- Units of an item that an order is given by itself: all that it misses if the item is handed out
at once, and as many of them as there are in stock if not. -/
def World.due (m : Menu) (w : World) (o : Order) (item : String) : Nat :=
  if m.isInstant item = .ok true then o.short item else min (w.onHand item) (o.short item)

namespace Item

/-- The names of some lines with their units. -/
def amounts (l : List Item) : List (String × Nat) := l.map fun i => (i.name, i.quantity.units)

end Item

namespace Coverage

variable {m : Menu} {o : Order} {w : World} {items : List String} {q : String → Quantity}

theorem amounts_lines (items : List String) (q : String → Quantity) :
    Item.amounts (items.flatMap fun i => line i (q i)) =
      (items.map fun i => (i, (q i).units)).filter fun a => decide (0 < a.2) := by
  induction items with
  | nil => rfl
  | cons item r ih =>
    unfold Item.amounts at ih ⊢
    rw [List.flatMap_cons, List.map_append, ih, List.map_cons, List.filter_cons]
    unfold line
    by_cases h0 : (q item).units = 0
    · simp [h0]
    · simp [h0, Nat.pos_of_ne_zero h0]

theorem unitsOf_lines (hitems : items.Nodup) (q : String → Quantity) (i : String) :
    Item.unitsOf i (items.flatMap fun j => line j (q j)) =
      if i ∈ items then (q i).units else 0 := by
  induction items with
  | nil => rfl
  | cons item r ih =>
    obtain ⟨hitem, hr⟩ := List.nodup_cons.1 hitems
    rw [List.flatMap_cons, Item.unitsOf_append, unitsOf_line, ih hr]
    by_cases heq : item = i
    · subst heq
      simp [hitem]
    · have hne : ¬ i = item := fun h => heq h.symm
      simp [heq, hne]

end Coverage

/-- An order was covered with all that it asks for: it was given what was due to it, and the kitchen
was asked for the rest. -/
structure World.Splits (m : Menu) (w : World) (o : Order) (packed requests : List Item)
    (l : List Deed) (r : Except Fault Outcome) (w' : World) : Prop where
  /-- One line is packed for each item of which units are due, in the order of the first lines. -/
  packs : Item.amounts packed = (o.names.map fun i => (i, w.due m o i)).filter fun a =>
    decide (0 < a.2)
  /-- The kitchen is asked for what is missing beyond that. -/
  asks : Item.amounts requests = (o.names.map fun i => (i, o.short i - w.due m o i)).filter fun a =>
    decide (0 < a.2)
  outcome : r = .ok ⟨o.number, packed, requests, (o.logged packed).status,
    (o.logged packed).status != o.status⟩
  /-- The order is written back if anything was packed, and no other order is. -/
  orders : ∃ time, w'.orders = if packed = [] then w.orders
    else w.orders.insert o.number ((o.logged packed).touch time)
  /-- What was due of items that are kept in stock left it, and nothing else did. -/
  stock : ∀ i, w'.onHand i = if i ∈ o.names ∧ m.isInstant i = .ok false
    then w.onHand i - w.due m o i else w.onHand i
  saved : Deeds.saved l = if packed = [] then [] else [o.logged packed]
  /-- The new status is told if it is another one. -/
  told : List.Forall₂ Tells (if (o.logged packed).status = o.status then []
    else [(o.number, (o.logged packed).status)]) (Deeds.noted l)
  asked : List.Forall₂ Asks (requests.map fun i => (o.number, i)) (Deeds.sent l)

namespace Coverage

variable {c : Coverage} {o : Order} {w w' : World} {l : List Deed} {r : Except Fault Outcome}

theorem splits_of_covering (hw : w.Orderly c.menu) (hf : w.Flowing)
    (ho : w.orders.find? o.number = some o)
    (h : Covering o (filled c.menu o.names o w.stock)
      (if (filled c.menu o.names o w.stock).packed = [] then []
        else [(filled c.menu o.names o w.stock).order]) (w.covered c.menu o.names o) l r w') :
    w.Splits c.menu o (filled c.menu o.names o w.stock).packed
      (filled c.menu o.names o w.stock).requests l r w' := by
  have hsound := (hw.sound _ _ ho).1
  have hnames : o.names.Nodup := Item.names_nodup o.items
  obtain ⟨hpacked, hrequests⟩ := filled_exact c.menu hnames o w.stock
  have horder := filled_order c.menu o.names o w.stock
  have hdue : ∀ i, (share c.menu o w.stock i).taken.units = w.due c.menu o i := fun i =>
    (share_units hsound w.stock i).1
  obtain ⟨new, hnew⟩ := h.left
  have hflow := h.flowing ((World.pass_covered _ hw ho).kept.flowing hf)
  constructor
  case packs =>
    rw [hpacked, amounts_lines]
    simp only [hdue]
  case asks =>
    rw [hrequests, amounts_lines]
    simp only [(share_units hsound w.stock _).2, hdue]
  case outcome =>
    obtain ⟨out, hout⟩ := hflow.1
    rw [hout, h.outcome out hout, ← horder]
  case orders =>
    refine ⟨w.time, ?_⟩
    rw [hnew.orders, ← horder]
    unfold World.covered
    dsimp only
    split
    · rfl
    · show w.orders.insert (filled c.menu o.names o w.stock).order.number _ = _
      rw [(filled_follows o.names hsound w.stock).number]
      rfl
  case stock =>
    intro i
    have hlost : (w.covered c.menu o.names o).onHand i + _ = w.onHand i :=
      (World.lost_covered o.names hsound).onHand i
    rw [hpacked, unitsOf_lines hnames, hdue] at hlost
    rw [hnew.onHand]
    by_cases hi : i ∈ o.names
    · obtain ⟨b, hb⟩ := hsound.isInstant_ok (Order.requests_iff_mem_names.2 hi)
      cases b
      · simp [hi, hb] at hlost ⊢
        omega
      · simp [hb] at hlost ⊢
        exact hlost
    · simp [hi] at hlost ⊢
      exact hlost
  case saved => rw [h.saved, ← horder]
  case told => rw [← horder]; exact h.told
  case asked => exact hflow.2

/-- Covering orders leaves the counts of items alone that are handed out at once. -/
theorem allows_handles (m : Menu) :
    Allows m fun a => ∀ item, a.Handles item → m.isInstant item = .ok false where
  beside a ha item h := by cases a <;> first | exact absurd h id | cases ha
  look item hb i hi := hi ▸ hb
  take item q hb i hi := hi ▸ hb

end Coverage

namespace Engine

/-- **Covering a new order splits what it misses exactly** into what is due to it, which is packed,
and the rest, which the kitchen is asked for; an order that is closed is left alone. -/
theorem coverNew_splits (e : Engine) (ops : List Operation) (rank : World.Rank) (d : Deadline)
    (hstore : (e.after ops).store.store.answers = true)
    (hup : (e.after ops).broker.isUp = true) (hfailing : (e.after ops).broker.failing = 0)
    {n : OrderNumber} {o : Order} (ho : (e.after ops).orders.find? n = some o) :
    WorkDoes rank (e.coverage.coverNew d n) (e.after ops) fun l r w' =>
      o.number = n ∧
      (o.status.isOpen = false → r = .ok ⟨n, [], [], o.status, false⟩ ∧ w' = e.after ops ∧
        Deeds.saved l = [] ∧ Deeds.said l = []) ∧
      (o.status.isOpen = true → ∃ packed requests,
        (e.after ops).Splits e.menu o packed requests l r w') ∧
      ∀ x ∈ l, ∀ item, x.action.Handles item → e.menu.isInstant item = .ok false := by
  have hw := World.orderly_after e ops
  have hflow : (e.after ops).Flowing := ⟨hup, hfailing, hw.records⟩
  obtain ⟨-, rfl⟩ := hw.sound n o ho
  have heach : EachWork _ (e.coverage.coverNew d o.number) :=
    (Coverage.allows_handles e.coverage.menu).coverNew d o.number
  have hhandles : WorkDoes rank (e.coverage.coverNew d o.number) (e.after ops) fun l _ _ =>
      ∀ x ∈ l, ∀ item, x.action.Handles item → e.menu.isInstant item = .ok false :=
    (Flow.Each.surely heach).does
  refine ((Coverage.does_coverNew d hw hstore ho).and hhandles).imp ?_
  rintro l r w' ⟨⟨hclosed, hopen⟩, htouched⟩
  refine ⟨rfl, fun h => ?_, fun h => ?_, htouched⟩
  · obtain ⟨hstill, hr, hw'⟩ := hclosed h
    exact ⟨hr, hw', hstill.saved, hstill.said_eq_nil⟩
  · exact ⟨_, _, Coverage.splits_of_covering hw hflow ho (hopen h)⟩

/-- Of two units of an item there is one, and the other item is handed out at once. -/
theorem coverNew_splits_fries :
    let lines : List Item :=
      [⟨"fries", Quantity.one⟩, ⟨"water", Quantity.one⟩, ⟨"fries", Quantity.one⟩]
    let ops : List Operation := [.addInventory "fries" Quantity.one, .place ⟨7⟩ lines]
    let o := Order.place ⟨1⟩ ⟨7⟩ lines (Timestamp.ofMillis 0)
    (after {} ops).orders.find? ⟨1⟩ = some o ∧
      WorkDoes .first ((coverage {}).coverNew ⟨0, Span.zero⟩ ⟨1⟩) (after {} ops) fun l r w' =>
        ∃ packed requests, (after {} ops).Splits (menu {}) o packed requests l r w' ∧
          Item.amounts packed = [("fries", 1), ("water", 1)] ∧
          Item.amounts requests = [("fries", 1)] := by
  intro lines ops o
  have ho : (after {} ops).orders.find? ⟨1⟩ = some o := by decide +kernel
  refine ⟨ho, (coverNew_splits {} ops .first ⟨0, Span.zero⟩ (by decide +kernel)
    (by decide +kernel) (by decide +kernel) ho).imp ?_⟩
  rintro l r w' ⟨-, -, hopen, -⟩
  obtain ⟨packed, requests, h⟩ := hopen rfl
  exact ⟨packed, requests, h, h.packs.trans (by decide +kernel), h.asks.trans (by decide +kernel)⟩

end Engine

end Takeaway
