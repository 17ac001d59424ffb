import Takeaway.Proofs.Acceptance
import Takeaway.Proofs.Delivery
import Takeaway.Proofs.Placement

/-!
Runs in which every message is handled once, in the order of sending, while orders are placed and
units are added. Main statement: the orders whose placement is still to be handled stand in the
queue by their numbers, behind all others.
-/

namespace Takeaway

open World (Aside Says Mail Orderly)

/-! ### Placements -/

/-- The order whose placement a message tells of. -/
def Envelope.placed? (x : Envelope) : Option OrderNumber :=
  match x.event, x.orderNumber with
  | .ok .orderPlaced, .ok n => some n
  | _, _ => none

namespace Envelope

variable {x : Envelope} {n : OrderNumber}

theorem placed?_orderPlaced (time : Timestamp) (hn : n.Fits) :
    (Envelope.orderPlaced n time).placed? = some n := by
  unfold placed?
  rw [event_orderPlaced, orderNumber_orderPlaced time hn]

theorem of_placed? (h : x.placed? = some n) :
    x.event = .ok .orderPlaced ∧ x.orderNumber = .ok n := by
  unfold placed? at h
  split at h
  · next hevent hnumber =>
    cases h
    exact ⟨hevent, hnumber⟩
  · cases h

/-- What the engine says by itself tells of no placement. -/
theorem placed?_of_light (h : x.weight ≤ 2) : x.placed? = none := by
  refine Option.eq_none_iff_forall_ne_some.2 fun n hn => ?_
  rw [weight_of_event (of_placed? hn).1] at h
  exact absurd h (by decide)

end Envelope

theorem filterMap_placed?_of_light {l : List Envelope} (h : ∀ x ∈ l, x.weight ≤ 2) :
    l.filterMap Envelope.placed? = [] :=
  List.filterMap_eq_nil_iff.2 fun x hx => Envelope.placed?_of_light (h x hx)

/-! ### The queue -/

namespace World

/-- The messages that were sent after the first `k`. -/
def inbox (w : World) (k : Nat) : List Envelope := (w.broker.history.drop k).map (·.envelope)

/-- The messages still to be handled or to be sent, when the first `k` were handled. -/
def pending (w : World) (k : Nat) : Multiset Envelope :=
  (w.inbox k : Multiset Envelope) + w.underWay

/-- The orders whose placement is still to be handled. -/
def newcomers (w : World) (k : Nat) : List OrderNumber := (w.inbox k).filterMap Envelope.placed?

/-- Units of an item that orders miss whose placement was handled. -/
def awaited (w : World) (k : Nat) (item : String) : Nat :=
  w.orders.total fun o => if o.number ∈ w.newcomers k then 0 else o.short item

/-- No count in stock is at its largest. -/
def Roomy (w : World) : Prop := ∀ q ∈ w.stock.counts.values, q.units < Quantity.largest

instance decidableRoomy (w : World) : Decidable w.Roomy :=
  inferInstanceAs (Decidable (∀ q ∈ w.stock.counts.values, q.units < Quantity.largest))

theorem Roomy.onHand_lt {w : World} (h : w.Roomy) (item : String) :
    w.onHand item < Quantity.largest := by
  unfold onHand Stock.onHand
  cases hq : w.stock.counts.find? item with
  | none => exact (by decide : 0 < Quantity.largest)
  | some q => exact h q (Index.mem_values.2 ⟨item, hq⟩)

end World

/-- What may come when the first `k` messages were handled: the next one is handled, an order is
placed, units are added, or time passes. -/
def Operation.InTurn (w : World) (k : Nat) : Operation → Prop
  | handle x => (w.inbox k).head? = some x
  | place _ _ | addInventory _ _ | rest _ _ | settle => True
  | collect _ | requestSweep | switchStore _ | switchBroker _ | failSends _ => False

instance Operation.decidableInTurn (w : World) (k : Nat) :
    (op : Operation) → Decidable (op.InTurn w k)
  | handle x => inferInstanceAs (Decidable ((w.inbox k).head? = some x))
  | place _ _ | addInventory _ _ | rest _ _ | settle => inferInstanceAs (Decidable True)
  | collect _ | requestSweep | switchStore _ | switchBroker _ | failSends _ =>
    inferInstanceAs (Decidable False)

/-- How many messages an operation handles. -/
def Operation.handles : Operation → Nat
  | handle _ => 1
  | _ => 0

/-- How many messages some operations handle. -/
def handlings (ops : List Operation) : Nat := (ops.map Operation.handles).sum

namespace Engine

/-- Operations come in turn, when the first `k` messages were handled before. -/
def InTurn (e : Engine) : World → Nat → List Operation → Prop
  | _, _, [] => True
  | w, k, op :: r => op.InTurn w k ∧ e.InTurn (op.run e w) (k + op.handles) r

instance decidableInTurn (e : Engine) :
    (w : World) → (k : Nat) → (ops : List Operation) → Decidable (e.InTurn w k ops)
  | _, _, [] => inferInstanceAs (Decidable True)
  | w, k, op :: r =>
    have := e.decidableInTurn (op.run e w) (k + op.handles) r
    inferInstanceAs (Decidable (_ ∧ _))

/-- No count in stock is ever at its largest. -/
def Roomy (e : Engine) : World → List Operation → Prop
  | w, [] => w.Roomy
  | w, op :: r => w.Roomy ∧ e.Roomy (op.run e w) r

instance decidableRoomy (e : Engine) :
    (w : World) → (ops : List Operation) → Decidable (e.Roomy w ops)
  | w, [] => inferInstanceAs (Decidable w.Roomy)
  | w, op :: r =>
    have := e.decidableRoomy (op.run e w) r
    inferInstanceAs (Decidable (_ ∧ _))

end Engine

/-! ### What becomes of the queue -/

variable {w w' : World} {m : Menu} {e : Engine} {k : Nat} {op : Operation}

theorem World.inbox_add (w : World) (k j : Nat) : w.inbox (k + j) = (w.inbox k).drop j := by
  unfold inbox
  rw [← List.map_drop, List.drop_drop]

theorem World.inbox_of_grown (hk : k ≤ w.broker.history.length)
    (h : w.broker.history <+: w'.broker.history) :
    ∃ t : List Envelope, (t : Multiset Envelope) = w.sentUntil w' ∧
      w'.inbox k = w.inbox k ++ t := by
  obtain ⟨t, ht⟩ := h
  refine ⟨t.map (·.envelope), ?_, ?_⟩
  · unfold sentUntil
    rw [← ht, List.drop_left]
  · unfold inbox
    rw [← ht, List.drop_append_of_le_length hk, List.map_append]

namespace Operation.InTurn

theorem handles_le (h : op.InTurn w k) : op.handles ≤ (w.inbox k).length := by
  cases op with
  | handle x =>
    unfold InTurn at h
    cases hi : w.inbox k with
    | nil =>
      rw [hi] at h
      cases h
    | cons y r => exact Nat.succ_le_succ (Nat.zero_le _)
  | _ => exact Nat.zero_le _

theorem within (h : op.InTurn w k) (hk : k ≤ w.broker.history.length) (e : Engine) :
    k + op.handles ≤ (op.run e w).broker.history.length := by
  have hle := h.handles_le
  unfold World.inbox at hle
  rw [List.length_map, List.length_drop] at hle
  have hgrown := (op.spoken e w).history.length_le
  omega

/-- What was handled is gone from the queue, and what was sent stands at its end. -/
theorem inbox (h : op.InTurn w k) (hk : k ≤ w.broker.history.length) (e : Engine) :
    ∃ t : List Envelope, (t : Multiset Envelope) = w.sentUntil (op.run e w) ∧
      (op.run e w).inbox (k + op.handles) = (w.inbox k).drop op.handles ++ t := by
  obtain ⟨t, ht, hinbox⟩ := World.inbox_of_grown hk (op.spoken e w).history
  refine ⟨t, ht, ?_⟩
  rw [World.inbox_add, hinbox, List.drop_append_of_le_length h.handles_le]

theorem pending (h : op.InTurn w k) (hk : k ≤ w.broker.history.length) {a : Multiset Envelope}
    (hmail : Mail a w (op.run e w)) (hf : w.Flowing) :
    ((w.inbox k).take op.handles : Multiset Envelope) + (op.run e w).pending (k + op.handles) =
      w.pending k + a := by
  obtain ⟨t, ht, hinbox⟩ := h.inbox hk e
  have hsent := hmail.sent_eq hf
  unfold World.pending
  rw [hinbox, ← Multiset.coe_add, ht, add_assoc, ← add_assoc, Multiset.coe_add,
    List.take_append_drop, hsent, add_assoc]

/-- No part is switched. -/
theorem kept (h : op.InTurn w k) (e : Engine) : w.Kept (op.run e w) := by
  cases op with
  | place customer items => exact Flow.run_kept .first (e.place customer items).run
  | addInventory item q => exact Flow.run_kept .first (e.addInventory item q).run
  | handle x =>
    exact (Flow.run_kept .inTurn (e.response x)).trans (e.aside_handled x w).kept
  | rest wait limit => exact (w.aside_await .first wait limit).kept
  | settle => exact (w.aside_passWhile _).kept
  | _ => cases h

end Operation.InTurn

/-- When an operation says nothing but what the engine says by itself, placements only go from the
queue. -/
theorem World.newcomers_of_light (hturn : op.InTurn w k) (hk : k ≤ w.broker.history.length)
    (hnotes : ∀ x ∈ w.underWay, x.weight ≤ 2)
    (hlight : ∀ x ∈ Deeds.said (op.trail e w), x.weight ≤ 2) :
    w.newcomers k = ((w.inbox k).take op.handles).filterMap Envelope.placed? ++
      (op.run e w).newcomers (k + op.handles) := by
  obtain ⟨t, ht, hinbox⟩ := hturn.inbox hk e
  have hnone : t.filterMap Envelope.placed? = [] := by
    refine filterMap_placed?_of_light fun x hx => ?_
    have hmem : x ∈ w.sentUntil (op.run e w) + (op.run e w).underWay :=
      Multiset.mem_add.2 (.inl (by rw [← ht]; exact hx))
    rcases Multiset.mem_add.1 (Multiset.mem_of_le (op.spoken e w).sent_le hmem) with h | h
    · exact hnotes x h
    · exact hlight x h
  unfold newcomers
  rw [hinbox, List.filterMap_append, hnone, List.append_nil, ← List.filterMap_append,
    List.take_append_drop]

/-! ### Orders that stand in the queue -/

/-- The first `k` messages were handled, in a system whose parts are in order and which was asked
for orders and units only. -/
structure World.Queued (m : Menu) (w : World) (k : Nat) : Prop where
  orderly : w.Orderly m
  flowing : w.Flowing
  answers : w.store.store.answers = true
  within : k ≤ w.broker.history.length
  /-- Notices tell only what the engine says by itself. -/
  notes : ∀ x ∈ w.underWay, x.weight ≤ 2
  told : ∀ x ∈ w.inbox k, x.weight ≤ 2 ∨ x.event = .ok .orderPlaced
  stored : ∀ n ∈ w.newcomers k, ∃ o, w.orders.find? n = some o
  ascending : (w.newcomers k).Pairwise (· < ·)
  /-- All other orders have lower numbers. -/
  behind : ∀ n o, w.orders.find? n = some o → n ∉ w.newcomers k → ∀ n' ∈ w.newcomers k, n < n'

namespace World.Queued

theorem start (e : Engine) : e.start.Queued e.menu 0 where
  orderly := World.orderly_after e []
  flowing := ⟨rfl, rfl, rfl⟩
  answers := rfl
  within := le_rfl
  notes x hx := absurd hx (Multiset.notMem_zero x)
  told x hx := by cases hx
  stored n hn := by cases hn
  ascending := .nil
  behind n o ho := by cases ho

/-- An operation that says nothing but what the engine says by itself, and stores no new order. -/
theorem light (h : w.Queued e.menu k) (hturn : op.InTurn w k)
    (hlight : ∀ x ∈ Deeds.said (op.trail e w), x.weight ≤ 2)
    (hkeys : (op.run e w).orders.keys ⊆ w.orders.keys) :
    (op.run e w).Queued e.menu (k + op.handles) := by
  have hkept := hturn.kept e
  have hconduct := h.orderly.conduct op
  have hspoken := op.spoken e w
  have hnewcomers := newcomers_of_light hturn h.within h.notes hlight
  have hheard : ∀ x ∈ w.underWay + (Deeds.said (op.trail e w) : Multiset Envelope),
      x.weight ≤ 2 := fun x hx => (Multiset.mem_add.1 hx).elim (h.notes x) (hlight x)
  have hsub : ∀ n ∈ (op.run e w).newcomers (k + op.handles), n ∈ w.newcomers k := fun n hn => by
    rw [hnewcomers]
    exact List.mem_append_right _ hn
  have hpairs := h.ascending
  rw [hnewcomers, List.pairwise_append] at hpairs
  constructor
  case orderly => exact ⟨h.orderly.toTidy.operation op, hconduct.sound⟩
  case flowing => exact hkept.flowing h.flowing
  case answers => exact hkept.answers.trans h.answers
  case within => exact hturn.within h.within e
  case notes =>
    exact fun x hx => hheard x (Multiset.mem_of_le hspoken.sent_le (Multiset.mem_add.2 (.inr hx)))
  case told =>
    obtain ⟨t, ht, hinbox⟩ := hturn.inbox h.within e
    intro x hx
    rw [hinbox] at hx
    rcases List.mem_append.1 hx with hx | hx
    · exact h.told x (List.mem_of_mem_drop hx)
    · have hsent : x ∈ w.sentUntil (op.run e w) := by rw [← ht]; exact hx
      exact .inl (hheard x (Multiset.mem_of_le hspoken.sent_le (Multiset.mem_add.2 (.inl hsent))))
  case stored =>
    intro n hn
    obtain ⟨o, ho⟩ := h.stored n (hsub n hn)
    obtain ⟨o', ho', -⟩ := hconduct.onward n o ho
    exact ⟨o', ho'⟩
  case ascending => exact hpairs.2.1
  case behind =>
    intro n o ho hnot n' hn'
    obtain ⟨o', ho'⟩ := Index.mem_keys.1 (hkeys (Index.mem_keys.2 ⟨o, ho⟩))
    by_cases hmem : n ∈ w.newcomers k
    · rw [hnewcomers] at hmem
      exact hpairs.2.2 n ((List.mem_append.1 hmem).resolve_right hnot) n' hn'
    · exact h.behind n o' ho' hmem n' (hsub n' hn')

end World.Queued

/-! ### A new order -/

/-- An order was placed, and told of. -/
structure World.Placed (w : World) (o : Order) (time : Timestamp) (w' : World) : Prop where
  beyond : ∀ n x, w.orders.find? n = some x → n < o.number
  orders : ∃ stamp, w'.orders = w.orders.insert o.number (o.touch stamp)
  stock : w'.stock = w.stock
  notices : w'.notices = w.notices
  history : w'.broker.history = w.broker.history ++ [⟨w.topic, .orderPlaced o.number time⟩]

/-- An order is refused, or it is stored under the next number. -/
theorem Desk.ends_place_written {rank : World.Rank} (hw : w.Tidy)
    (ha : w.store.store.answers = true) (menu : Menu) (customer : CustomerId) (items : List Item) :
    WorkEnds rank (place menu customer items) w fun r w' =>
      (∃ f, r = .error f) ∧ w' = w ∨ ∃ o, r = .ok o ∧ o.number = ⟨w.store.store.last + 1⟩ ∧
        w' = (w.numberGiven.written o).count .ordersPlaced 1 := by
  cases hc : check menu items with
  | error r =>
    unfold place
    rw [hc]
    exact .inl ⟨⟨_, rfl⟩, rfl⟩
  | ok u =>
    refine (ends_place_accepted hw.script hc customer).imp ?_
    rintro r w' (⟨hoff, -⟩ | ⟨-, rfl, rfl⟩)
    · rw [ha] at hoff
      cases hoff
    · exact .inr ⟨_, rfl, rfl, rfl⟩

theorem Engine.ends_place_placed {rank : World.Rank} (hw : w.Tidy) (hf : w.Flowing)
    (ha : w.store.store.answers = true) (customer : CustomerId) (items : List Item) :
    WorkEnds rank (e.place customer items) w fun _ w' =>
      w' = w ∨ ∃ o time, w.Placed o time w' := by
  unfold place
  refine WorkEnds.bind (p := fun r w' => (∃ f, r = .error f) ∧ w' = w ∨
    ∃ o, r = .ok o ∧ o.number = ⟨w.store.store.last + 1⟩ ∧
      w' = (w.numberGiven.written o).count .ordersPlaced 1) ?_ ?_ ?_
  · refine Flow.Ends.bind (Desk.ends_place_written hw ha e.menu customer items) ?_
    rintro _ w' (⟨⟨f, rfl⟩, h⟩ | ⟨o, rfl, h⟩)
    · exact .inl ⟨⟨_, rfl⟩, h⟩
    · exact .inr ⟨o, rfl, h⟩
  · rintro o _ (⟨⟨f, ⟨⟩⟩, -⟩ | ⟨o, ⟨⟩, hnumber, rfl⟩)
    generalize hv : (w.numberGiven.written o).count .ordersPlaced 1 = v
    have hflowing : v.Flowing := by
      rw [← hv]
      exact ⟨hf.isUp, hf.failing, hf.records⟩
    refine Flow.Ends.bind_lift (p := fun _ w' => w' = v) (Flow.ends_ask rfl) ?_
    rintro time v rfl
    refine WorkEnds.bind (p := fun r w' => r = .ok () ∧ w' = { v with
        broker := v.broker.deliver ⟨v.topic, .orderPlaced o.number time⟩ })
      ((workAtOnce_mapError _ ((atOnce_publish_sent hflowing e.policy _).imp ?_)).ends rank) ?_
      (by rintro _ _ ⟨⟨⟩, -⟩)
    · rintro _ _ ⟨rfl, rfl⟩
      exact ⟨rfl, rfl⟩
    rintro _ _ ⟨-, rfl⟩
    refine workEnds_pure (.inr ⟨o, time, ?_, ⟨w.time, ?_⟩, ?_, ?_, ?_⟩)
    · intro n x hx
      have hle := (hw.numbered n x hx).2
      rw [hnumber]
      show n.value < w.store.store.last + 1
      omega
    · rw [← hv]
      rfl
    · rw [← hv]
      rfl
    · rw [← hv]
      rfl
    · rw [← hv]
      exact if_pos hf.records
  · rintro f w' (⟨-, h⟩ | ⟨o, ⟨⟩, -⟩)
    exact .inl h

namespace World.Placed

variable {o : Order} {time : Timestamp}

theorem inbox (h : w.Placed o time w') (hk : k ≤ w.broker.history.length) :
    w'.inbox k = w.inbox k ++ [.orderPlaced o.number time] := by
  unfold World.inbox
  rw [h.history, List.drop_append_of_le_length hk, List.map_append]
  rfl

theorem underWay (h : w.Placed o time w') : w'.underWay = w.underWay := by
  unfold World.underWay
  rw [h.notices]

theorem pending (h : w.Placed o time w') (hk : k ≤ w.broker.history.length) :
    w'.pending k = w.pending k + {.orderPlaced o.number time} := by
  unfold World.pending
  rw [h.inbox hk, h.underWay, ← Multiset.coe_add, Multiset.coe_singleton, add_right_comm]

/-- The new order is the last one in the queue. -/
theorem newcomers (h : w.Placed o time w') (hk : k ≤ w.broker.history.length)
    (hfits : o.number.Fits) : w'.newcomers k = w.newcomers k ++ [o.number] := by
  unfold World.newcomers
  rw [h.inbox hk, List.filterMap_append, List.filterMap_cons,
    Envelope.placed?_orderPlaced time hfits]
  rfl

theorem find? (h : w.Placed o time w') {n : OrderNumber} {x : Order}
    (hx : w'.orders.find? n = some x) : n = o.number ∨ ∃ y, w.orders.find? n = some y := by
  obtain ⟨stamp, horders⟩ := h.orders
  rw [horders] at hx
  rcases Index.find?_insert hx with ⟨rfl, -⟩ | ⟨-, hx⟩
  · exact .inl rfl
  · exact .inr ⟨x, hx⟩

theorem queued (h : w.Placed o time w') (hq : w.Queued m k) (hw : w'.Orderly m)
    (hkept : w.Kept w') (honward : w.Onward w') (hfits : o.number.Fits) : w'.Queued m k := by
  have hnewcomers := h.newcomers hq.within hfits
  have hlast : ∀ n ∈ w.newcomers k, n < o.number := fun n hn => by
    obtain ⟨x, hx⟩ := hq.stored n hn
    exact h.beyond n x hx
  constructor
  case orderly => exact hw
  case flowing => exact hkept.flowing hq.flowing
  case answers => exact hkept.answers.trans hq.answers
  case within =>
    rw [h.history, List.length_append]
    exact Nat.le_add_right_of_le hq.within
  case notes =>
    rw [h.underWay]
    exact hq.notes
  case told =>
    intro x hx
    rw [h.inbox hq.within] at hx
    rcases List.mem_append.1 hx with hx | hx
    · exact hq.told x hx
    · rw [List.mem_singleton.1 hx]
      exact .inr (Envelope.event_orderPlaced ..)
  case stored =>
    intro n hn
    rw [hnewcomers] at hn
    rcases List.mem_append.1 hn with hn | hn
    · obtain ⟨x, hx⟩ := hq.stored n hn
      obtain ⟨y, hy, -⟩ := honward n x hx
      exact ⟨y, hy⟩
    · rw [List.mem_singleton.1 hn]
      obtain ⟨stamp, horders⟩ := h.orders
      exact ⟨_, by rw [horders]; exact Index.find?_insert_self ..⟩
  case ascending =>
    rw [hnewcomers]
    refine List.pairwise_append.2 ⟨hq.ascending, List.pairwise_singleton .., fun n hn n' hn' => ?_⟩
    rw [List.mem_singleton.1 hn']
    exact hlast n hn
  case behind =>
    intro n x hx hnot n' hn'
    rw [hnewcomers] at hnot hn'
    obtain ⟨hnot, hne⟩ := not_or.1 (mt List.mem_append.2 hnot)
    obtain ⟨y, hy⟩ := (h.find? hx).resolve_left fun heq => hne (List.mem_singleton.2 heq)
    rcases List.mem_append.1 hn' with hn' | hn'
    · exact hq.behind n y hy hnot n' hn'
    · rw [List.mem_singleton.1 hn']
      exact h.beyond n y hy

end World.Placed

end Takeaway
