import Takeaway.Proofs.Coverage.Fill
import Takeaway.Proofs.World.Backed

/-!
The life of an order. Main statements: packing and handing over only ever add to the log of what
was packed and move the status forward; and packing that logs anything leaves fewer units missing.
-/

namespace Takeaway

theorem Status.rank_inj {s t : Status} (h : s.rank = t.rank) : s = t := by
  cases s <;> cases t <;> first | rfl | cases h

theorem Status.isOpen_iff_rank (s : Status) : s.isOpen = true ↔ s.rank < 2 := by
  cases s <;> decide

namespace Order

/-- The one order comes before the other in the life of an order. -/
structure Onward (o o' : Order) : Prop where
  number : o'.number = o.number
  customer : o'.customer = o.customer
  items : o'.items = o.items
  placedAt : o'.placedAt = o.placedAt
  packed : o.packed <+: o'.packed
  status : o.status.rank ≤ o'.status.rank

namespace Onward

variable {o o' o'' : Order}

protected theorem refl (o : Order) : o.Onward o := ⟨rfl, rfl, rfl, rfl, List.prefix_refl _, le_rfl⟩

protected theorem trans (h : o.Onward o') (h' : o'.Onward o'') : o.Onward o'' where
  number := h'.number.trans h.number
  customer := h'.customer.trans h.customer
  items := h'.items.trans h.items
  placedAt := h'.placedAt.trans h.placedAt
  packed := h.packed.trans h'.packed
  status := h.status.trans h'.status

theorem touch (h : o.Onward o') (time : Timestamp) : o.Onward (o'.touch time) :=
  ⟨h.number, h.customer, h.items, h.placedAt, h.packed, h.status⟩

theorem requestedUnits (h : o.Onward o') : o'.requestedUnits = o.requestedUnits := by
  unfold Order.requestedUnits
  rw [h.items]

theorem packedUnits_le (h : o.Onward o') : o.packedUnits ≤ o'.packedUnits := by
  obtain ⟨t, ht⟩ := h.packed
  unfold Order.packedUnits
  rw [← ht, Item.units_append]
  exact Nat.le_add_right _ _

end Onward

variable {m : Menu} {o o' : Order}

/-- Units of any item still to be packed. -/
def lacking (o : Order) : Nat := o.requestedUnits - o.packedUnits

theorem Onward.lacking_le (h : o.Onward o') : o'.lacking ≤ o.lacking := by
  have hp := h.packedUnits_le
  unfold lacking
  rw [h.requestedUnits]
  omega

/-- An order that is open does not fall behind as long as nothing is taken out of its log. -/
theorem Sound.rank_le (h : o.Sound m) (h' : o'.Sound m) (hopen : o.status.isOpen = true)
    (hle : o.packedUnits ≤ o'.packedUnits) : o.status.rank ≤ o'.status.rank := by
  rw [Status.isOpen_iff_rank] at hopen
  by_cases h0 : o.packedUnits = 0
  · rw [h.requested_iff.2 h0]
    exact Nat.zero_le _
  · have hne : o'.status ≠ .requested := fun hs => by
      have := h'.requested_iff.1 hs
      omega
    have hrank : o'.status.rank ≠ 0 := fun hr => hne (Status.rank_inj hr)
    omega

theorem Sound.onward_pack (h : o.Sound m) {name : String} {q : Quantity} (hq : 0 < q.units)
    (hle : q.units ≤ o.short name) : o.Onward (o.pack name q) := by
  have hopen : o.status.isOpen = true := h.isOpen_iff_short.2 ⟨name, by omega⟩
  have hpacked := o.pack_packed name hq
  have hunits : o.packedUnits ≤ (o.pack name q).packedUnits := by
    unfold packedUnits
    rw [hpacked, Item.units_append]
    exact Nat.le_add_right _ _
  refine ⟨by simp, ?_, by simp, ?_, ?_, h.rank_le (h.pack hq hle) hopen hunits⟩
  · rw [pack_of_pos o name hq]
  · rw [pack_of_pos o name hq]
  · rw [hpacked]
    exact List.prefix_append _ _

theorem onward_collect {new : Order} (hc : o.collect = .ok new) :
    o.Onward new := by
  unfold Order.collect at hc
  split at hc
  · next hs =>
    cases hc
    refine ⟨rfl, rfl, rfl, rfl, List.prefix_refl _, ?_⟩
    rw [hs]
    exact Nat.le_succ 2
  · cases hc
    exact Onward.refl o
  · cases hc

end Order

/-! ### Packing -/

namespace Coverage

variable {m : Menu} {o : Order} {s : Stock}

theorem Filling.Serves.onward {f : Filling} {item : String} {q : Quantity}
    (h : f.Serves m item o s q) (ho : o.Sound m) : o.Onward f.order := by
  rw [h.order]
  split
  · exact Order.Onward.refl o
  · next h0 => exact ho.onward_pack (Nat.pos_of_ne_zero h0) h.le

theorem Filling.Serves.log {f : Filling} {item : String} {q : Quantity}
    (h : f.Serves m item o s q) : f.order.packed = o.packed ++ f.packed := by
  rw [h.order, h.packed]
  split
  · next h0 => rw [line_eq_nil.2 h0, List.append_nil]
  · next h0 =>
    rw [Order.pack_packed _ _ (Nat.pos_of_ne_zero h0)]
    unfold line
    rw [if_neg h0]

theorem filled_onward (items : List String) (ho : o.Sound m) (s : Stock) :
    o.Onward (filled m items o s).order := by
  induction items generalizing o s with
  | nil => exact Order.Onward.refl o
  | cons item r ih =>
    obtain ⟨q, hq⟩ := served_serves ho item s
    exact (hq.onward ho).trans (ih (hq.sound ho) _)

/-- What was packed is what came to the log. -/
theorem filled_log (items : List String) (ho : o.Sound m) (s : Stock) :
    (filled m items o s).order.packed = o.packed ++ (filled m items o s).packed := by
  induction items generalizing o s with
  | nil => exact (List.append_nil _).symm
  | cons item r ih =>
    obtain ⟨q, hq⟩ := served_serves ho item s
    have hrest := ih (hq.sound ho) (served m item o s).stock
    have hone := hq.log
    unfold filled
    dsimp only
    rw [hrest, hone, List.append_assoc]

/-- Packing that logs anything leaves less to be packed. -/
theorem filled_lacking (items : List String) (ho : o.Sound m) (s : Stock)
    (hp : (filled m items o s).packed ≠ []) : (filled m items o s).order.lacking < o.lacking := by
  have hlog := filled_log items ho s
  have hfollows := filled_follows items ho s
  have hrequested := (filled_onward items ho s).requestedUnits
  have hle := hfollows.sound.packedUnits_le
  have hpos : 0 < Item.units (filled m items o s).packed := by
    obtain ⟨i, hi⟩ := List.exists_mem_of_ne_nil _ hp
    have hq : 0 < i.quantity.units := hfollows.sound.somePacked i (by
      rw [hlog]
      exact List.mem_append_right _ hi)
    have hunits : ∀ l : List Item, i ∈ l → 0 < Item.units l := fun l hl => by
      induction l with
      | nil => cases hl
      | cons j r ih =>
        rw [Item.units]
        rcases List.mem_cons.1 hl with rfl | hl
        · omega
        · have := ih hl
          omega
    exact hunits _ hi
  have hunits : (filled m items o s).order.packedUnits =
      o.packedUnits + Item.units (filled m items o s).packed := by
    unfold Order.packedUnits
    rw [hlog, Item.units_append]
  unfold Order.lacking
  omega

/-- What is missing of a stocked item is packed as long as there is any. -/
theorem filled_one_ne_nil (ho : o.Sound m) {item : String} (hi : m.isInstant item = .ok false)
    (hstock : (s.onHand item).units ≠ 0) (hshort : 0 < o.short item) :
    (filled m [item] o s).packed ≠ [] := by
  obtain ⟨q, hq⟩ := served_serves ho item s
  have hstocked := hq.stocked hi
  have hne : q.units ≠ 0 := by
    intro h0
    omega
  unfold filled filled
  dsimp only
  rw [List.append_nil, hq.packed]
  exact fun h => hne (line_eq_nil.1 h)

end Coverage

/-! ### Worlds -/

namespace World

variable {m : Menu} {w w' w'' : World}

/-- Every stored order is still stored, and has not gone backwards. -/
def Onward (w w' : World) : Prop := ∀ n o, w.orders.find? n = some o →
  ∃ o', w'.orders.find? n = some o' ∧ o.Onward o'

/-- How far the order of a number has come. -/
def rankOf (w : World) (n : OrderNumber) : Nat :=
  ((w.orders.find? n).map fun o => o.status.rank).getD 0

/-- Units still to be packed, over all stored orders. -/
def lacking (w : World) : Nat := w.orders.total fun o => o.lacking

theorem Onward.of_orders (h : w'.orders = w.orders) : w.Onward w' := fun n o ho =>
  ⟨o, by rw [h]; exact ho, Order.Onward.refl o⟩

protected theorem Onward.trans (h : w.Onward w') (h' : w'.Onward w'') : w.Onward w'' := by
  intro n o ho
  obtain ⟨o', ho', hx⟩ := h n o ho
  obtain ⟨o'', ho'', hx'⟩ := h' n o' ho'
  exact ⟨o'', ho'', hx.trans hx'⟩

theorem rankOf_eq {n : OrderNumber} {o : Order} (h : w.orders.find? n = some o) :
    w.rankOf n = o.status.rank := by
  unfold rankOf
  rw [h]
  rfl

theorem rankOf_le_three (w : World) (n : OrderNumber) : w.rankOf n ≤ 3 := by
  unfold rankOf
  cases w.orders.find? n with
  | none => exact Nat.zero_le _
  | some o =>
    show o.status.rank ≤ 3
    cases o.status <;> decide

theorem find?_written (w : World) (o : Order) (n : OrderNumber) :
    (w.written o).orders.find? n =
      if o.number = n then some (o.touch w.time) else w.orders.find? n := by
  show (w.orders.insert o.number _).find? n = _
  split
  · next heq =>
    subst heq
    exact Index.find?_insert_self ..
  · next heq => exact Index.find?_insert_of_ne _ _ heq

/-- Writing an order over an earlier state of it. -/
theorem onward_written {o new : Order} (ho : w.orders.find? new.number = some o)
    (hx : o.Onward new) : w.Onward (w.written new) := by
  intro n x hn
  rw [find?_written]
  split
  · next heq =>
    subst heq
    obtain rfl := Option.some.inj (ho.symm.trans hn)
    exact ⟨_, rfl, hx.touch _⟩
  · exact ⟨x, hn, Order.Onward.refl x⟩

theorem lacking_written {o new : Order} (ho : w.orders.find? new.number = some o) :
    (w.written new).lacking + o.lacking = w.lacking + new.lacking := by
  show (w.orders.insert new.number _).total _ + _ = _
  rw [Index.total_insert_old _ _ ho]
  rfl

theorem sound_written {new : Order} (hw : w.Sound m) (h : new.Sound m) :
    (w.written new).Sound m := by
  intro n x hn
  rw [find?_written] at hn
  split at hn
  · next heq =>
    obtain rfl := Option.some.inj hn
    exact ⟨h.touch _, heq⟩
  · exact hw n x hn

end World

end Takeaway
