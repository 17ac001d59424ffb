import Takeaway.Proofs.Coverage.Fill

/-!
Worlds in which orders were served from the stock. Main statement: writing back an order that was
packed moves units from the stock into it, and changes nothing else but the time stamp.
-/

namespace Takeaway

/-- The one order is the other with no less packed. -/
structure Order.Extends (o o' : Order) : Prop where
  number : o'.number = o.number
  items : o'.items = o.items
  grows : ∀ i, o.packedOf i ≤ o'.packedOf i

namespace Order.Extends

variable {o o' o'' : Order}

protected theorem refl (o : Order) : o.Extends o := ⟨rfl, rfl, fun _ => le_rfl⟩

protected theorem trans (h : o.Extends o') (h' : o'.Extends o'') : o.Extends o'' :=
  ⟨h'.number.trans h.number, h'.items.trans h.items, fun i => (h.grows i).trans (h'.grows i)⟩

theorem requestedOf (h : o.Extends o') (i : String) : o'.requestedOf i = o.requestedOf i := by
  unfold Order.requestedOf
  rw [h.items]

theorem requests (h : o.Extends o') (i : String) : o'.requests i = o.requests i := by
  unfold Order.requests
  rw [h.items]

theorem short_le (h : o.Extends o') (i : String) : o'.short i ≤ o.short i := by
  have := h.grows i
  unfold Order.short
  rw [h.requestedOf]
  omega

end Order.Extends

/-! ### Orders that wait for units -/

theorem OrderFilter.accepts_waiting (o : Order) :
    OrderFilter.waiting.accepts o = o.status.isOpen := by
  unfold OrderFilter.accepts OrderFilter.waiting
  cases o.status <;> rfl

theorem OrderFilter.accepts_requesting (o : Order) (item : String) :
    (OrderFilter.waiting.requesting item).accepts o =
      (o.status.isOpen && o.requests item) := by
  unfold OrderFilter.accepts OrderFilter.requesting OrderFilter.waiting
  cases o.status <;> rfl

namespace World

variable {m : Menu} {w w' w'' : World} {a b : Multiset Envelope}

/-! ### What is missing -/

/-- Units of an item that the stored order of a number misses. -/
def shortOf (w : World) (n : OrderNumber) (item : String) : Nat :=
  ((w.orders.find? n).map fun o => o.short item).getD 0

/-- Units of an item that the stored orders miss. -/
def short (w : World) (item : String) : Nat := w.orders.total fun o => o.short item

/-- Units of an item that the stored orders ask for. -/
def requested (w : World) (item : String) : Nat := w.orders.total fun o => o.requestedOf item

theorem Aside.shortOf (h : Aside a w w') (n : OrderNumber) (item : String) :
    w'.shortOf n item = w.shortOf n item := by
  unfold World.shortOf
  rw [h.orders]

theorem Aside.short (h : Aside a w w') (item : String) : w'.short item = w.short item := by
  unfold World.short
  rw [h.orders]

theorem shortOf_eq {n : OrderNumber} {o : Order} (h : w.orders.find? n = some o) (item : String) :
    w.shortOf n item = o.short item := by
  unfold shortOf
  rw [h]
  rfl

theorem short_eq_zero {i : String} (h : ∀ n, w.shortOf n i = 0) : w.short i = 0 := by
  have hle : w.short i ≤ w.orders.total fun _ => 0 := by
    refine Index.total_le fun n o ho => ?_
    have := h n
    rw [shortOf_eq ho] at this
    omega
  have hzero : (w.orders.total fun _ : Order => 0) = 0 := by
    unfold Index.total
    simp
  omega

/-- A tidy world whose orders are sound. -/
structure Orderly (m : Menu) (w : World) : Prop extends Tidy w where
  sound : w.Sound m

theorem Orderly.aside (h : w.Orderly m) (ha : Aside a w w') : w'.Orderly m where
  toTidy := h.toTidy.aside ha
  sound n o ho := by
    rw [orders, ha.store] at ho
    exact h.sound n o ho

theorem Orderly.mem_values (h : w.Orderly m) {o : Order} :
    o ∈ w.orders.values ↔ w.orders.find? o.number = some o := by
  rw [Index.mem_values]
  constructor
  · rintro ⟨n, hn⟩
    obtain ⟨-, rfl⟩ := h.sound n o hn
    exact hn
  · exact fun ho => ⟨_, ho⟩

theorem Orderly.numbers_nodup (h : w.Orderly m) :
    (w.orders.values.map fun o => o.number).Nodup := by
  have heq : (w.orders.values.map fun o => o.number) = w.orders.keys := by
    unfold Index.values Index.keys
    rw [List.map_map]
    exact List.map_congr_left fun e he => (h.sound _ _ (Index.find?_eq_some_iff.2 he)).2
  rw [heq]
  exact w.orders.keys_nodup

/-- An order that is not open misses nothing. -/
theorem Orderly.isOpen_of_shortOf (h : w.Orderly m) {n : OrderNumber} {i : String}
    (hpos : 0 < w.shortOf n i) : ∃ o, w.orders.find? n = some o ∧ o.number = n ∧
      o.status.isOpen = true ∧ o.requests i = true := by
  cases ho : w.orders.find? n with
  | none =>
    unfold shortOf at hpos
    rw [ho] at hpos
    cases hpos
  | some o =>
    obtain ⟨hsound, hnumber⟩ := h.sound n o ho
    rw [shortOf_eq ho] at hpos
    exact ⟨o, rfl, hnumber, hsound.isOpen_iff_short.2 ⟨i, hpos⟩, hsound.requests_of_short hpos⟩

/-- What is asked for is packed or missing. -/
theorem Orderly.short_add_packed (h : w.Orderly m) (item : String) :
    w.short item + w.packed item = w.requested item := by
  unfold short packed requested
  rw [← Index.total_add]
  refine Index.total_congr fun n o ho => ?_
  have := (h.sound n o ho).1.within item
  unfold Order.short
  omega

/-! ### Serving -/

/-- Orders were served from the stock: the same orders are stored, with no less packed, and what
is packed more of a stocked item left the stock. -/
structure Served (m : Menu) (w w' : World) : Prop where
  forth : ∀ n o, w.orders.find? n = some o → ∃ o', w'.orders.find? n = some o' ∧ o.Extends o'
  back : ∀ n o', w'.orders.find? n = some o' → ∃ o, w.orders.find? n = some o ∧ o.Extends o'
  requested : ∀ i, w'.requested i = w.requested i
  conserves : ∀ i, m.isInstant i = .ok false →
    w'.onHand i + w'.packed i = w.onHand i + w.packed i

namespace Served

protected theorem trans (h : Served m w w') (h' : Served m w' w'') : Served m w w'' where
  forth n o ho := by
    obtain ⟨o', ho', hx⟩ := h.forth n o ho
    obtain ⟨o'', ho'', hx'⟩ := h'.forth n o' ho'
    exact ⟨o'', ho'', hx.trans hx'⟩
  back n o'' ho'' := by
    obtain ⟨o', ho', hx'⟩ := h'.back n o'' ho''
    obtain ⟨o, ho, hx⟩ := h.back n o' ho'
    exact ⟨o, ho, hx.trans hx'⟩
  requested i := (h'.requested i).trans (h.requested i)
  conserves i hi := (h'.conserves i hi).trans (h.conserves i hi)

theorem of_same (ho : w'.orders = w.orders) (hs : w'.stock = w.stock) : Served m w w' where
  forth n o h := ⟨o, by rw [ho]; exact h, Order.Extends.refl o⟩
  back n o h := ⟨o, by rw [← ho]; exact h, Order.Extends.refl o⟩
  requested i := by unfold World.requested; rw [ho]
  conserves i _ := by unfold packed onHand; rw [ho, hs]

theorem shortOf_le (h : Served m w w') (n : OrderNumber) (item : String) :
    w'.shortOf n item ≤ w.shortOf n item := by
  cases ho' : w'.orders.find? n with
  | none =>
    unfold shortOf
    rw [ho']
    exact Nat.zero_le _
  | some o' =>
    obtain ⟨o, ho, hx⟩ := h.back n o' ho'
    rw [shortOf_eq ho', shortOf_eq ho]
    exact hx.short_le item

end Served

/-- Serving orders, with what becomes of the mail meanwhile. -/
structure Pass (m : Menu) (new : Multiset Envelope) (w w' : World) : Prop where
  orderly : w'.Orderly m
  kept : w.Kept w'
  mail : Mail new w w'
  served : Served m w w'

namespace Pass

protected theorem trans (h : Pass m a w w') (h' : Pass m b w' w'') : Pass m (a + b) w w'' :=
  ⟨h'.orderly, h.kept.trans h'.kept, h.mail.trans h'.mail, h.served.trans h'.served⟩

theorem of_aside (hw : w.Orderly m) (h : Aside a w w') : Pass m a w w' :=
  ⟨hw.aside h, h.kept, h.toMail, Served.of_same h.orders h.stock⟩

theorem trans_aside (h : Pass m a w w') (h' : Aside 0 w' w'') : Pass m a w w'' := by
  simpa using h.trans (of_aside h.orderly h')

theorem zero_trans (h : Pass m 0 w w') (h' : Pass m b w' w'') : Pass m b w w'' := by
  simpa using h.trans h'

/-- What is missing and what is in stock shrink by the same units. -/
theorem short_add_onHand (h : Pass m a w w') (hw : w.Orderly m) {i : String}
    (hi : m.isInstant i = .ok false) : w'.short i + w.onHand i = w.short i + w'.onHand i := by
  have h₁ := hw.short_add_packed i
  have h₂ := h.orderly.short_add_packed i
  have h₃ := h.served.requested i
  have h₄ := h.served.conserves i hi
  omega

theorem packed_le (h : Pass m a w w') (i : String) : w.packed i ≤ w'.packed i :=
  Index.total_le_total fun n o ho => by
    obtain ⟨o', ho', hx⟩ := h.served.forth n o ho
    exact ⟨o', ho', hx.grows i⟩

theorem short_le (h : Pass m a w w') (hw : w.Orderly m) (i : String) :
    w'.short i ≤ w.short i := by
  have h₁ := hw.short_add_packed i
  have h₂ := h.orderly.short_add_packed i
  have h₃ := h.served.requested i
  have h₄ := h.packed_le i
  omega

theorem onHand_le (h : Pass m a w w') {i : String} (hi : m.isInstant i = .ok false) :
    w'.onHand i ≤ w.onHand i := by
  have h₃ := h.served.conserves i hi
  have h₄ := h.packed_le i
  omega

end Pass

/-! ### Writing an order back -/

/-- The world after an order was written, with what is left of the stock. -/
def replaced (w : World) (s : Stock) (o : Order) : World := { w with stock := s }.written o

/-- What is written back for a stored order holds what the stock has lost. -/
structure Replaces (m : Menu) (w : World) (o : Order) (s : Stock) (new : Order) : Prop where
  stored : w.orders.find? o.number = some o
  grown : o.Extends new
  sound : new.Sound m
  announces : s.announces = w.stock.announces
  conserves : ∀ i, m.isInstant i = .ok false →
    (s.onHand i).units + new.packedOf i = w.onHand i + o.packedOf i

section Replaced

variable {o new : Order} {s : Stock}

theorem find?_replaced (h : o.Extends new) (n : OrderNumber) :
    (w.replaced s new).orders.find? n =
      if o.number = n then some (new.touch w.time) else w.orders.find? n := by
  show (w.orders.insert new.number _).find? n = _
  rw [h.number]
  split
  · next heq =>
    subst heq
    exact Index.find?_insert_self ..
  · next heq => exact Index.find?_insert_of_ne _ _ heq

theorem total_replaced (h : w.Replaces m o s new) {f : Order → Nat}
    (hf : ∀ x time, f (Order.touch x time) = f x) :
    (w.replaced s new).orders.total f + f o = w.orders.total f + f new := by
  show (w.orders.insert new.number _).total f + f o = _
  rw [h.grown.number, Index.total_insert_old f _ h.stored, hf]

theorem served_replaced (h : w.Replaces m o s new) : Served m w (w.replaced s new) := by
  have hx : o.Extends (new.touch w.time) := ⟨h.grown.number, h.grown.items, h.grown.grows⟩
  constructor
  case forth =>
    intro n x hn
    rw [find?_replaced h.grown]
    split
    · next heq =>
      subst heq
      obtain rfl := Option.some.inj (h.stored.symm.trans hn)
      exact ⟨_, rfl, hx⟩
    · exact ⟨x, hn, Order.Extends.refl x⟩
  case back =>
    intro n x hn
    rw [find?_replaced h.grown] at hn
    split at hn
    · next heq =>
      subst heq
      obtain rfl := Option.some.inj hn
      exact ⟨o, h.stored, hx⟩
    · exact ⟨x, hn, Order.Extends.refl x⟩
  case requested =>
    intro i
    have htotal := total_replaced h (f := fun x => x.requestedOf i) fun _ _ => rfl
    have hsame := h.grown.requestedOf i
    unfold requested
    omega
  case conserves =>
    intro i hi
    have htotal := total_replaced h (f := fun x => x.packedOf i) fun _ _ => rfl
    have hcons := h.conserves i hi
    show (s.onHand i).units + _ = w.onHand i + w.packed i
    unfold packed
    omega

/-- **Writing an order back that was packed from the stock serves it.** -/
theorem pass_replaced (hw : w.Orderly m) (h : w.Replaces m o s new) :
    Pass m 0 w (w.replaced s new) where
  orderly := by
    have htidy : Tidy { w with stock := s } :=
      ⟨hw.script, hw.frozen, h.announces.trans hw.announces, hw.records, hw.numbered⟩
    refine ⟨htidy.written new, fun n x hn => ?_⟩
    rw [find?_replaced h.grown] at hn
    split at hn
    · next heq =>
      obtain rfl := Option.some.inj hn
      exact ⟨h.sound.touch _, h.grown.number.trans heq⟩
    · exact hw.sound n x hn
  kept := ⟨rfl, rfl, rfl, h.announces, rfl, rfl, id⟩
  mail := mail_of_same rfl rfl
  served := served_replaced h

end Replaced

/-! ### A pass over an order -/

/-- The world after an order was packed and written back. -/
def covered (m : Menu) (items : List String) (o : Order) (w : World) : World :=
  let f := Coverage.filled m items o w.stock
  if f.packed = [] then w else w.replaced f.stock f.order

section Covered

variable (items : List String) {o : Order}

theorem replaces_filled (hw : w.Orderly m) (ho : w.orders.find? o.number = some o) :
    w.Replaces m o (Coverage.filled m items o w.stock).stock
      (Coverage.filled m items o w.stock).order := by
  have hf := Coverage.filled_follows items (hw.sound _ _ ho).1 w.stock
  exact ⟨ho, ⟨hf.number, hf.items, hf.grows⟩, hf.sound, hf.announces, hf.conserves⟩

/-- **Packing an order and writing it back serves it.** -/
theorem pass_covered (hw : w.Orderly m) (ho : w.orders.find? o.number = some o) :
    Pass m 0 w (w.covered m items o) := by
  unfold covered
  dsimp only
  split
  · exact Pass.of_aside hw (Aside.refl w)
  · exact pass_replaced hw (replaces_filled items hw ho)

/-- Other orders are left alone. -/
theorem find?_covered_of_ne (hw : w.Orderly m) (ho : w.orders.find? o.number = some o)
    {n : OrderNumber} (hn : o.number ≠ n) :
    (w.covered m items o).orders.find? n = w.orders.find? n := by
  unfold covered
  dsimp only
  split
  · rfl
  · rw [find?_replaced (replaces_filled items hw ho).grown, if_neg hn]

/-- After a pass over one order, orders under other numbers are stored as they were. -/
theorem find?_of_covered (hw : w.Orderly m) (ho : w.orders.find? o.number = some o) {v : World}
    (hv : v.orders = (w.covered m items o).orders) {rest : List Order}
    (hnot : o.number ∉ rest.map fun o => o.number)
    (hstored : ∀ x ∈ rest, w.orders.find? x.number = some x) :
    ∀ x ∈ rest, v.orders.find? x.number = some x := by
  intro x hx
  have hne : o.number ≠ x.number := fun heq => hnot (List.mem_map.2 ⟨x, hx, heq.symm⟩)
  rw [hv, find?_covered_of_ne items hw ho hne]
  exact hstored x hx

theorem covered_stock (hsound : o.Sound m) :
    (w.covered m items o).stock = (Coverage.filled m items o w.stock).stock := by
  unfold covered
  dsimp only
  split
  · next hp => exact ((Coverage.filled_follows items hsound w.stock).idle hp).2.symm
  · rfl

/-- What the order that was packed still misses. -/
theorem shortOf_covered (hw : w.Orderly m) (ho : w.orders.find? o.number = some o) (i : String) :
    (w.covered m items o).shortOf o.number i =
      (Coverage.filled m items o w.stock).order.short i := by
  have hf := Coverage.filled_follows items (hw.sound _ _ ho).1 w.stock
  unfold covered
  dsimp only
  split
  · next hp => rw [shortOf_eq ho, (hf.idle hp).1]
  · unfold shortOf
    rw [find?_replaced (replaces_filled items hw ho).grown, if_pos rfl]
    rfl

end Covered

end World

end Takeaway
