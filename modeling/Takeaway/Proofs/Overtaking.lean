import Takeaway.Proofs.Coverage.LowestFirst
import Takeaway.Proofs.Queue
import Takeaway.Proofs.Recovery

/-!
Who is left waiting when nothing fails and every message is handled in the order of sending. Main
statement: when no message is left, no more units are missing than were taken by new orders while
orders before them missed some. Nothing is put aside for the order that the kitchen was asked for,
so a new order may take what was prepared for an older one.

The invariant is `Engine.Fed`. It cannot be about all orders: nobody was asked yet for what an order
misses whose placement is still to be handled. So it is about the units that are *awaited*, by the
orders whose placement was handled. These have lower numbers than the others, and units that arrive
go to the lowest numbers first, so only the handling of a placement can take units from them.
-/

namespace Takeaway

open World (Aside Mail Pass Orderly Served)

variable {w w' : World} {m : Menu} {e : Engine} {k k' : Nat} {op : Operation} {x : Envelope}
  {n : OrderNumber} {new gone : Multiset Envelope}

/-! ### Units taken out of turn -/

/-- Units of an item by which orders whose placement was handled are overtaken: those that a new
order takes from the stock, as far as the others miss them. -/
def Operation.overtakes (e : Engine) (w : World) (k : Nat) (item : String) : Operation → Nat
  | handle x =>
    if x.placed?.isSome then min (w.onHand item - (e.handled x w).onHand item) (w.awaited k item)
    else 0
  | _ => 0

/-- Units of an item by which orders are overtaken in a run. -/
def Engine.overtaken (e : Engine) (item : String) : World → Nat → List Operation → Nat
  | _, _, [] => 0
  | w, k, op :: r =>
    op.overtakes e w k item + e.overtaken item (op.run e w) (k + op.handles) r

/-! ### Units that are awaited -/

namespace World

/-- What is awaited, order by order. -/
theorem Orderly.awaited_eq (h : w.Orderly m) (k : Nat) (i : String) : w.awaited k i =
    ∑ n ∈ w.orders.keys.toFinset, if n ∈ w.newcomers k then 0 else w.shortOf n i := by
  unfold awaited
  rw [Index.total_eq_sum_keys]
  refine Finset.sum_congr rfl fun n hn => ?_
  obtain ⟨o, ho⟩ := Index.mem_keys.1 (List.mem_toFinset.1 hn)
  obtain ⟨-, rfl⟩ := h.sound n o ho
  rw [ho, shortOf_eq ho]
  rfl

theorem short_eq (w : World) (i : String) :
    w.short i = ∑ n ∈ w.orders.keys.toFinset, w.shortOf n i := Index.total_eq_sum_keys ..

theorem awaited_le_short (w : World) (k : Nat) (i : String) : w.awaited k i ≤ w.short i := by
  refine Index.total_le fun n o _ => ?_
  split
  · exact Nat.zero_le _
  · exact le_rfl

theorem awaited_of_same (ho : w'.orders = w.orders) (hn : w'.newcomers k' = w.newcomers k)
    (i : String) : w'.awaited k' i = w.awaited k i := by
  unfold awaited
  rw [ho, hn]

/-- When nobody is new, all that is missing is awaited. -/
theorem awaited_of_none (h : w.newcomers k = []) (i : String) : w.awaited k i = w.short i := by
  unfold awaited short
  rw [h]
  exact Index.total_congr fun _ _ _ => if_neg List.not_mem_nil

theorem Served.mem_keys (h : Served m w w') {n : OrderNumber} :
    n ∈ w'.orders.keys ↔ n ∈ w.orders.keys := by
  rw [Index.mem_keys, Index.mem_keys]
  constructor
  · rintro ⟨o', ho'⟩
    obtain ⟨o, ho, -⟩ := h.back n o' ho'
    exact ⟨o, ho⟩
  · rintro ⟨o, ho⟩
    obtain ⟨o', ho', -⟩ := h.forth n o ho
    exact ⟨o', ho'⟩

theorem Served.keys_toFinset (h : Served m w w') :
    w'.orders.keys.toFinset = w.orders.keys.toFinset := by
  ext n
  rw [List.mem_toFinset, List.mem_toFinset, h.mem_keys]

/-- What the first newcomer still misses when it was covered is awaited with the rest. -/
theorem Pass.awaited_covered (h : Pass m new w w') (hw : w.Orderly m)
    (hn : w.newcomers k = n :: w'.newcomers k') (hlater : n ∉ w'.newcomers k') {o : Order}
    (ho : w.orders.find? n = some o)
    (hothers : ∀ j, n ≠ j → w'.orders.find? j = w.orders.find? j) (i : String) :
    w'.awaited k' i = w.awaited k i + w'.shortOf n i := by
  have hmem : n ∈ w.orders.keys.toFinset :=
    List.mem_toFinset.2 (Index.mem_keys.2 ⟨o, ho⟩)
  have hrest : ∀ j ∈ w.orders.keys.toFinset.erase n,
      (if j ∈ w'.newcomers k' then 0 else w'.shortOf j i) =
        if j ∈ w.newcomers k then 0 else w.shortOf j i := by
    intro j hj
    have hne := Finset.ne_of_mem_erase hj
    have hsame : w'.shortOf j i = w.shortOf j i := by
      unfold shortOf
      rw [hothers j hne.symm]
    simp only [hsame, hn, List.mem_cons, hne, false_or]
  have hfirst : n ∈ w.newcomers k := by
    rw [hn]
    exact List.mem_cons_self ..
  rw [h.orderly.awaited_eq, hw.awaited_eq, h.served.keys_toFinset, ← Finset.add_sum_erase _ _ hmem,
    ← Finset.add_sum_erase _ _ hmem, Finset.sum_congr rfl hrest, if_neg hlater, if_pos hfirst]
  omega

/-- Serving orders leaves no more awaited. -/
theorem Pass.awaited_le (h : Pass m new w w') (hw : w.Orderly m)
    (hn : w'.newcomers k' = w.newcomers k) (i : String) : w'.awaited k' i ≤ w.awaited k i := by
  rw [h.orderly.awaited_eq, hw.awaited_eq, h.served.keys_toFinset, hn]
  refine Finset.sum_le_sum fun j _ => ?_
  split
  · exact le_rfl
  · exact h.served.shortOf_le j i

/-- When the lowest numbers are served first, all that leaves the stock goes to orders whose
placement was handled, until these miss nothing. -/
theorem Pass.awaited_served (h : Pass m new w w') (hq : w.Queued m k) (hlowest : w.LowestFirst w')
    (hn : w'.newcomers k' = w.newcomers k) {i : String} (hi : m.isInstant i = .ok false) :
    w'.awaited k' i = 0 ∨ w'.awaited k' i + w.onHand i = w.awaited k i + w'.onHand i := by
  have hw := hq.orderly
  by_cases hnew : ∃ n ∈ w.newcomers k, w'.shortOf n i < w.shortOf n i
  · obtain ⟨n, hn', hlt⟩ := hnew
    left
    rw [h.orderly.awaited_eq, h.served.keys_toFinset, hn]
    refine Finset.sum_eq_zero fun j hj => ?_
    obtain ⟨o, ho⟩ := Index.mem_keys.1 (List.mem_toFinset.1 hj)
    split
    · rfl
    · next hj => exact hlowest i n hlt j (hq.behind j o ho hj n hn')
  · right
    have hsplit : ∀ {v : World}, v.short i = ∑ n ∈ v.orders.keys.toFinset,
        ((if n ∈ w.newcomers k then 0 else v.shortOf n i) +
          if n ∈ w.newcomers k then v.shortOf n i else 0) := fun {v} => by
      rw [short_eq]
      refine Finset.sum_congr rfl fun n _ => ?_
      split <;> omega
    have hsame : ∀ n ∈ w.newcomers k, w'.shortOf n i = w.shortOf n i := fun n hn' => by
      have hle := h.served.shortOf_le n i
      have hnot : ¬ w'.shortOf n i < w.shortOf n i := fun hlt => hnew ⟨n, hn', hlt⟩
      omega
    have hnewcomers : (∑ n ∈ w.orders.keys.toFinset,
        if n ∈ w.newcomers k then w'.shortOf n i else 0) =
        ∑ n ∈ w.orders.keys.toFinset, if n ∈ w.newcomers k then w.shortOf n i else 0 := by
      refine Finset.sum_congr rfl fun n _ => ?_
      split
      · next hmem => exact hsame n hmem
      · rfl
    have hbefore := hsplit (v := w)
    have hafter := hsplit (v := w')
    rw [Finset.sum_add_distrib, ← hw.awaited_eq] at hbefore
    rw [Finset.sum_add_distrib, h.served.keys_toFinset, hnewcomers] at hafter
    have hawaited := h.orderly.awaited_eq k' i
    rw [h.served.keys_toFinset, hn] at hawaited
    have hbalance := h.short_add_onHand hw hi
    omega

/-- An order that is placed is new. -/
theorem Placed.awaited {o : Order} {time : Timestamp} (h : w.Placed o time w') (hq : w.Queued m k)
    (hfits : o.number.Fits) (i : String) : w'.awaited k i = w.awaited k i := by
  obtain ⟨stamp, horders⟩ := h.orders
  have hfree : w.orders.find? o.number = none := by
    cases hx : w.orders.find? o.number with
    | none => rfl
    | some x => exact absurd (h.beyond _ x hx) (Std.Irrefl.irrefl (r := (· < ·)) _)
  unfold World.awaited
  rw [horders, Index.total_insert_new _ _ hfree, h.newcomers hq.within hfits]
  have hnone : (if (o.touch stamp).number ∈ w.newcomers k ++ [o.number] then 0
      else (o.touch stamp).short i) = 0 :=
    if_pos (List.mem_append_right _ (List.mem_singleton_self _))
  rw [hnone, Nat.add_zero]
  refine Index.total_congr fun n y hy => ?_
  obtain ⟨-, rfl⟩ := hq.orderly.sound n y hy
  have hne : y.number ≠ o.number := fun heq => by
    rw [heq, hfree] at hy
    cases hy
  simp only [List.mem_append, List.mem_singleton, hne, or_false]

end World

/-! ### Orders that are cooked for -/

namespace Engine

variable {spare : String → Nat}

/-- Of every item, what is awaited is in stock, was asked of the kitchen, or was taken out of turn;
and nothing is awaited of what is in stock, unless its arrival is still to be handled. -/
structure Fed (e : Engine) (w : World) (k : Nat) (spare : String → Nat) : Prop where
  covered : ∀ i, e.menu.isInstant i = .ok false →
    w.awaited k i ≤ w.onHand i + e.expected i (w.pending k) + spare i
  announced : ∀ i, e.menu.isInstant i = .ok false →
    w.onHand i = 0 ∨ w.awaited k i = 0 ∨ ∃ x ∈ w.pending k, e.Announces i x
  instant : ∀ i, e.menu.isInstant i = .ok true → w.awaited k i = 0

namespace Fed

/-- Units that were in stock are handed to those who await them. -/
theorem served (h : e.Fed w k spare) (hp : gone + w'.pending k' = w.pending k + new)
    (hgone : ∀ i, e.expected i gone = 0) (hle : ∀ i, w'.awaited k' i ≤ w.awaited k i)
    (hstock : ∀ i, e.menu.isInstant i = .ok false → w'.onHand i ≤ w.onHand i)
    (hmoved : ∀ i, e.menu.isInstant i = .ok false →
      w'.awaited k' i = 0 ∨ w'.awaited k' i + w.onHand i = w.awaited k i + w'.onHand i)
    (harrived : ∀ i, e.menu.isInstant i = .ok false → (∃ x ∈ gone, e.Announces i x) →
      w'.onHand i = 0 ∨ w'.awaited k' i = 0) : e.Fed w' k' spare where
  covered i hi := by
    have hold := h.covered i hi
    have hexpected := expected_balance (e := e) hp i
    rw [hgone] at hexpected
    rcases hmoved i hi with h0 | hmoved <;> omega
  announced i hi := announced_of_le (h.announced i hi) hp (hstock i hi) (hle i) (harrived i hi)
  instant i hi := Nat.le_zero.1 ((hle i).trans (h.instant i hi).le)

/-- Nothing is done that matters. -/
theorem still (h : e.Fed w k spare) (hp : gone + w'.pending k' = w.pending k + new)
    (hgone : ∀ i, e.expected i gone = 0) (hno : ∀ i, ∀ x ∈ gone, ¬ e.Announces i x)
    (hsame : ∀ i, w'.awaited k' i = w.awaited k i) (hstock : ∀ i, w'.onHand i = w.onHand i) :
    e.Fed w' k' spare := by
  refine h.served hp hgone (fun i => (hsame i).le) (fun i _ => (hstock i).le) (fun i _ => ?_) ?_
  · rw [hsame, hstock]
    exact .inr rfl
  · rintro i _ ⟨x, hx, ha⟩
    exact absurd ha (hno i x hx)

/-- Units are added to the stock. -/
theorem supplied (h : e.Fed w k spare) {lines : List Item} (hs : Supplied lines new w w')
    (hp : gone + w'.pending k' = w.pending k + new)
    (hgone : ∀ i, e.expected i gone ≤ Item.unitsOf i lines)
    (hno : ∀ i, ∀ x ∈ gone, ¬ e.Announces i x) (hsame : ∀ i, w'.awaited k' i = w.awaited k i)
    (hannounces : w.stock.announces = true) (hroom : w'.Roomy) : e.Fed w' k' spare := by
  have honHand : ∀ i, w'.onHand i = w.onHand i + Item.unitsOf i lines := fun i => by
    have hlt := hroom.onHand_lt i
    rw [hs.onHand] at hlt ⊢
    omega
  constructor
  case covered =>
    intro i hi
    have hold := h.covered i hi
    have hexpected := expected_balance (e := e) hp i
    have hless := hgone i
    rw [hsame, honHand]
    omega
  case announced =>
    intro i hi
    rw [hsame]
    exact hs.announced_of_no_arrival hannounces (h.announced i hi) hp (hno i)
  case instant =>
    intro i hi
    rw [hsame]
    exact h.instant i hi

/-- A new order is covered; what it takes may be what others await. -/
theorem covering (h : e.Fed w k spare) (hp : gone + w'.pending k' = w.pending k + new)
    (hgone : ∀ i, e.expected i gone = 0) (hno : ∀ i, ∀ x ∈ gone, ¬ e.Announces i x)
    (missing : String → Nat) (hmore : ∀ i, w'.awaited k' i = w.awaited k i + missing i)
    (hstock : ∀ i, e.menu.isInstant i = .ok false → w'.onHand i ≤ w.onHand i)
    (hleft : ∀ i, e.menu.isInstant i = .ok false → w'.onHand i = 0 ∨ missing i = 0)
    (hinstant : ∀ i, e.menu.isInstant i = .ok true → missing i = 0)
    (hasked : ∀ i, missing i ≤ e.expected i new) :
    e.Fed w' k' fun i => spare i + min (w.onHand i - w'.onHand i) (w.awaited k i) where
  covered i hi := by
    have hold := h.covered i hi
    have hexpected := expected_balance (e := e) hp i
    have hstock := hstock i hi
    have hasked := hasked i
    rw [hgone] at hexpected
    rw [hmore]
    -- what was taken is no more than is awaited, or all that is awaited is made up for
    omega
  announced i hi := by
    rcases hleft i hi with h0 | h0
    · exact .inl h0
    · have hsame : w'.awaited k' i ≤ w.awaited k i := by
        rw [hmore, h0]
        exact le_rfl
      exact announced_of_le (h.announced i hi) hp (hstock i hi) hsame fun ⟨x, hx, hann⟩ =>
        absurd hann (hno i x hx)
  instant i hi := by
    rw [hmore, h.instant i hi, hinstant i hi]

end Fed

/-! ### One operation after another -/

/-- What the engine says while it handles a message is what it says by itself. -/
theorem light_handle (hw : w.Orderly e.menu) (x : Envelope) :
    ∀ y ∈ Deeds.said ((Operation.handle x).trail e w), y.weight ≤ 2 := by
  rw [Operation.trail_handle]
  exact (surely_response hw x _ _ _ (Flow.reaches_run .inTurn _ w)).light

theorem light_addInventory (e : Engine) (w : World) (item : String) (q : Quantity) :
    ∀ y ∈ Deeds.said ((Operation.addInventory item q).trail e w), y.weight ≤ 2 := by
  intro y hy
  obtain ⟨-, -, hsaid⟩ := WorkSurely.of_first
    (Flow.Calm.surely (calmWork_addInventory e item q) w)
  obtain ⟨-, time, rfl⟩ := hsaid y hy
  rw [Envelope.weight_of_event (Envelope.event_itemAdded ..)]
  exact Nat.zero_le _

theorem job_of_placed? (h : x.placed? = some n) : e.job x = .ok (.cover n) :=
  job_cover (Envelope.of_placed? h).1 (Envelope.of_placed? h).2

/-- A message about no placement that is told in a run asks for one of three jobs. -/
theorem job_of_told (hlight : x.weight ≤ 2 ∨ x.event = .ok .orderPlaced) (hx : x.placed? = none)
    {j : Job} (hj : e.job x = .ok j) :
    (∃ lines, j = .restock lines) ∨ (∃ lines, j = .prepare lines) ∨ ∃ s, j = .record s := by
  rcases hlight with hlight | hevent
  · rw [← weight_of_job hj] at hlight
    cases j with
    | restock lines => exact .inl ⟨lines, rfl⟩
    | prepare lines => exact .inr (.inl ⟨lines, rfl⟩)
    | record s => exact .inr (.inr ⟨s, rfl⟩)
    | _ => exact absurd hlight (by simp only [Job.weight]; decide)
  · unfold job at hj
    unfold Envelope.placed? at hx
    rw [hevent] at hj hx
    cases hn : x.orderNumber with
    | ok n =>
      rw [hn] at hx
      cases hx
    | error f =>
      rw [hn] at hj
      cases hj

section Handle

variable (hq : w.Queued e.menu k) (hf : e.Fed w k spare) (hturn : (Operation.handle x).InTurn w k)
include hq hturn

theorem newcomers_handle :
    w.newcomers k = x.placed?.toList ++ (e.handled x w).newcomers (k + 1) := by
  obtain ⟨r, hr⟩ := List.head?_eq_some_iff.1 (show (w.inbox k).head? = some x from hturn)
  have hnewcomers := World.newcomers_of_light hturn hq.within hq.notes (light_handle hq.orderly x)
  rw [hr] at hnewcomers
  rw [hnewcomers]
  show [x].filterMap Envelope.placed? ++ _ = _
  rw [List.filterMap_cons]
  cases x.placed? <;> rfl

theorem pending_handle (hmail : Mail new w (e.handled x w)) :
    {x} + (e.handled x w).pending (k + 1) = w.pending k + new := by
  obtain ⟨r, hr⟩ := List.head?_eq_some_iff.1 (show (w.inbox k).head? = some x from hturn)
  have hpending := hturn.pending hq.within hmail hq.flowing
  rw [hr] at hpending
  exact hpending

theorem newcomers_handled (hx : x.placed? = none) :
    (e.handled x w).newcomers (k + 1) = w.newcomers k := by
  rw [newcomers_handle (e := e) hq hturn, hx]
  rfl

include hf

/-- The placement of an order is handled. -/
theorem Fed.handle_placed (hk : e.settings.kitchen = true) (hx : x.placed? = some n)
    (hfits : n.Fits) : Served e.menu w (e.handled x w) ∧ e.Fed (e.handled x w) (k + 1) fun i =>
      spare i + min (w.onHand i - (e.handled x w).onHand i) (w.awaited k i) := by
  have hnewcomers := newcomers_handle hq hturn
  rw [hx] at hnewcomers
  have hfirst : n ∈ w.newcomers k := by
    rw [hnewcomers]
    exact List.mem_cons_self ..
  have hlater : n ∉ (e.handled x w).newcomers (k + 1) := fun hmem => by
    have hpairs := hq.ascending
    rw [hnewcomers] at hpairs
    exact Std.Irrefl.irrefl (r := (· < ·)) n ((List.pairwise_cons.1 hpairs).1 n hmem)
  obtain ⟨o, ho⟩ := hq.stored n hfirst
  obtain ⟨hsound, hnumber⟩ := hq.orderly.sound n o ho
  obtain ⟨-, w₁, ⟨new, hpass, hothers, hswept⟩, haside, -⟩ := handled_of_job (e := e) (w := w)
    (job_of_placed? hx) (p := fun _ w' => ∃ new, Pass e.menu new w w' ∧
      (∀ j, n ≠ j → w'.orders.find? j = w.orders.find? j) ∧
      (w.Flowing → ∃ rs, Asked rs new ∧ Coverage.Swept e.menu [o] rs w')) fun d =>
    WorkEnds.bind (e.coverage.ends_coverNew_swept d hq.orderly hq.answers ho)
      (fun _ _ h => workEnds_pure h) fun _ _ h => h
  obtain ⟨rs, hasked, hswept⟩ := hswept hq.flowing
  have hswept := hswept.pass (Pass.of_aside hpass.orderly haside)
  have hpass := hpass.trans_aside haside
  refine ⟨hpass.served, hf.covering (pending_handle hq hturn hpass.mail) (fun i => ?_) ?_
    (fun i => (e.handled x w).shortOf n i) ?_ (fun i hi => hpass.onHand_le hi) (fun i hi => ?_)
    (fun i hi => ?_) fun i => ?_⟩
  · rw [expected_singleton, brings_of_job (job_of_placed? hx)]
    rfl
  · intro i y hy
    rw [Multiset.mem_singleton.1 hy, announces_iff_of_job (job_of_placed? hx)]
    rintro ⟨lines, ⟨⟩, -⟩
  · refine hpass.awaited_covered hq.orderly hnewcomers hlater ho fun j hj => ?_
    rw [haside.orders]
    exact hothers j hj
  · refine (hswept.left i hi).imp_right fun h0 => ?_
    have := h0 o (List.mem_singleton_self o)
    rwa [hnumber] at this
  · have := hswept.instant i hi o (List.mem_singleton_self o)
    rwa [hnumber] at this
  · have hunits := hswept.asked i
    rw [List.map_singleton, List.sum_singleton, hnumber] at hunits
    refine hunits.trans (expected_asked hk hasked fun r hr => ?_)
    obtain ⟨o', ho', hn, hreq⟩ := hswept.known r hr
    obtain rfl := List.mem_singleton.1 ho'
    exact ⟨by rw [hn, hnumber]; exact hfits, hsound.isInstant_ok hreq⟩

/-- A message is handled about which nothing is done to orders and stock. -/
theorem Fed.handle_aside (hx : x.placed? = none) (ha : Aside new w (e.handled x w))
    (hbrings : ∀ i, e.brings i x = 0) (hno : ∀ i, ¬ e.Announces i x) :
    (e.handled x w).orders.keys ⊆ w.orders.keys ∧ e.Fed (e.handled x w) (k + 1) spare := by
  refine ⟨ha.orders ▸ List.Subset.refl _, hf.still (pending_handle hq hturn ha.toMail)
    (fun i => (expected_singleton x).trans (hbrings i)) (fun i y hy => ?_)
    (World.awaited_of_same ha.orders (newcomers_handled hq hturn hx)) ha.onHand⟩
  rw [Multiset.mem_singleton.1 hy]
  exact hno i

/-- An arrival is handled: the lowest numbers are served first. -/
theorem Fed.handle_arrival (hx : x.placed? = none) {lines : List Item}
    (hj : e.job x = .ok (.restock lines)) :
    (e.handled x w).orders.keys ⊆ w.orders.keys ∧ e.Fed (e.handled x w) (k + 1) spare := by
  have hnewcomers := newcomers_handled (e := e) hq hturn hx
  obtain ⟨r, w₁, ⟨⟨new, hpass, hleft⟩, -, hlowest⟩, haside, -⟩ :=
    handled_of_job (w := w) hj fun d =>
      (ends_restockAll (c := e.coverage) d hq.orderly (Item.names lines)).and
        (ends_restockAll_lowestFirst (c := e.coverage) d hq.orderly (Item.names lines))
  have hlast := Pass.of_aside hpass.orderly haside
  have hpass := hpass.trans_aside haside
  have hlowest : w.LowestFirst (e.handled x w) :=
    hlowest.trans (World.lowestFirst_of_orders haside.orders) hlast.served
  refine ⟨fun n hn => hpass.served.mem_keys.1 hn, hf.served (pending_handle hq hturn hpass.mail)
    (fun i => ?_) (hpass.awaited_le hq.orderly hnewcomers) (fun i hi => hpass.onHand_le hi)
    (fun i hi => hpass.awaited_served hq hlowest hnewcomers hi) ?_⟩
  · rw [expected_singleton, brings_of_job hj]
    rfl
  · rintro i hi ⟨y, hy, hann⟩
    rw [Multiset.mem_singleton.1 hy] at hann
    obtain ⟨_, ⟨⟩, hmem⟩ := (announces_iff_of_job hj).1 hann
    have hle := World.awaited_le_short (e.handled x w) (k + 1) i
    rw [haside.short] at hle
    rw [haside.onHand]
    exact ((hleft hq.flowing hq.answers).2 i hmem hi).imp_right fun h0 => by omega

/-- A request is handled: the kitchen adds to the stock what it was asked for, if it knows how. -/
theorem Fed.handle_request (hx : x.placed? = none) (hroom : (e.handled x w).Roomy)
    {lines : List Item} (hj : e.job x = .ok (.prepare lines)) :
    (e.handled x w).orders.keys ⊆ w.orders.keys ∧ e.Fed (e.handled x w) (k + 1) spare := by
  have hbrings : ∀ i, e.brings i x = (Job.prepare lines).brings e i := fun i => brings_of_job hj
  have hno : ∀ i, ¬ e.Announces i x := fun i => by
    rw [announces_iff_of_job hj]
    rintro ⟨_, ⟨⟩, -⟩
  obtain ⟨r, w₁, hprepared, haside, -⟩ := handled_of_job (w := w) hj fun _ =>
    Kitchen.ends_prepare e.menu e.settings.timeScale lines
  rcases hprepared with ⟨hplan, -, new, hs⟩ | ⟨hplan, -, rfl⟩
  · have hs := hs.trans_aside haside
    have horders : (e.handled x w).orders = w.orders := congrArg (·.store.orders) hs.store
    refine ⟨horders ▸ List.Subset.refl _, hf.supplied hs (pending_handle hq hturn hs.mail)
      (fun i => ?_) (fun i y hy => ?_)
      (World.awaited_of_same horders (newcomers_handled hq hturn hx)) hq.orderly.announces hroom⟩
    · rw [expected_singleton, hbrings, Job.brings_of_plan hplan]
    · rw [Multiset.mem_singleton.1 hy]
      exact hno i
  · exact hf.handle_aside hq hturn hx haside
      (fun i => (hbrings i).trans (Job.brings_of_no_plan hplan)) hno

/-- Any message but that of a placement is handled. -/
theorem Fed.handle_other (hx : x.placed? = none) (hroom : (e.handled x w).Roomy) :
    (e.handled x w).orders.keys ⊆ w.orders.keys ∧ e.Fed (e.handled x w) (k + 1) spare := by
  cases hj : e.job x with
  | error r =>
    exact hf.handle_aside hq hturn hx (handled_of_rejection hj) (fun i => brings_of_rejection hj)
      fun i => not_announces_of_rejection hj
  | ok j =>
    rcases job_of_told (hq.told x (List.mem_of_mem_head? hturn)) hx hj with
      ⟨lines, rfl⟩ | ⟨lines, rfl⟩ | ⟨status, rfl⟩
    · exact hf.handle_arrival hq hturn hx hj
    · exact hf.handle_request hq hturn hx hroom hj
    · obtain ⟨-, w₁, ⟨new, ha⟩, haside, -⟩ := handled_of_job (w := w) hj
        (p := fun _ w' => ∃ new, Aside new w w') fun d =>
        QuietWork.ends (quietWork_lift (quiet_count (.statusUpdates status)))
      refine hf.handle_aside hq hturn hx (ha.trans_zero haside) (fun i => brings_of_job hj)
        fun i => ?_
      rw [announces_iff_of_job hj]
      rintro ⟨lines, ⟨⟩, -⟩

end Handle

/-- An order is placed. -/
theorem Fed.placed (hq : w.Queued e.menu k) (hf : e.Fed w k spare) {o : Order} {time : Timestamp}
    (h : w.Placed o time w') (hfits : o.number.Fits) : e.Fed w' k spare := by
  have hp : (0 : Multiset Envelope) + w'.pending k =
      w.pending k + {.orderPlaced o.number time} := by
    rw [zero_add, h.pending hq.within]
  refine hf.still hp (fun _ => rfl) (fun i y hy => absurd hy (Multiset.notMem_zero y))
    (h.awaited hq hfits) fun i => ?_
  unfold World.onHand
  rw [h.stock]

section Apart

variable (hq : w.Queued e.menu k) (hturn : op.InTurn w k) (hnone : op.handles = 0)
include hq hturn hnone

theorem pending_apart (hmail : Mail new w (op.run e w)) :
    (0 : Multiset Envelope) + (op.run e w).pending (k + op.handles) = w.pending k + new := by
  have hpending := hturn.pending hq.within hmail hq.flowing
  have hgone : ((w.inbox k).take op.handles : Multiset Envelope) = 0 := by
    rw [hnone]
    rfl
  rwa [hgone] at hpending

theorem newcomers_apart (hlight : ∀ y ∈ Deeds.said (op.trail e w), y.weight ≤ 2) :
    (op.run e w).newcomers (k + op.handles) = w.newcomers k := by
  have hnewcomers := World.newcomers_of_light hturn hq.within hq.notes hlight
  have hgone : ((w.inbox k).take op.handles).filterMap Envelope.placed? = [] := by
    rw [hnone]
    rfl
  rw [hgone] at hnewcomers
  exact hnewcomers.symm

/-- Nothing is done to orders and stock. -/
theorem Fed.apart (hf : e.Fed w k spare)
    (hlight : ∀ y ∈ Deeds.said (op.trail e w), y.weight ≤ 2) (ha : Aside new w (op.run e w)) :
    (op.run e w).Queued e.menu (k + op.handles) ∧ e.Fed (op.run e w) (k + op.handles) spare := by
  refine ⟨hq.light hturn hlight (ha.orders ▸ List.Subset.refl _), ?_⟩
  refine hf.still (pending_apart hq hturn hnone ha.toMail) (fun _ => rfl)
    (fun i y hy => absurd hy (Multiset.notMem_zero y))
    (World.awaited_of_same ha.orders (newcomers_apart hq hturn hnone hlight)) ha.onHand

end Apart

section Steps

variable (hq : w.Queued e.menu k) (hf : e.Fed w k spare)
include hq hf

theorem Fed.place (customer : CustomerId) (items : List Item)
    (hfits : ∀ n o, ((Operation.place customer items).run e w).orders.find? n = some o → n.Fits) :
    ((Operation.place customer items).run e w).Queued e.menu k ∧
      e.Fed ((Operation.place customer items).run e w) k spare := by
  have hconduct := hq.orderly.conduct (.place customer items)
  have hplaced : WorkEnds .first (e.place customer items) w _ :=
    ends_place_placed hq.orderly.toTidy hq.flowing hq.answers customer items
  rcases hplaced.of_first with hsame | ⟨o, time, hplaced⟩
  · show (Work.left (e.place customer items) w).Queued e.menu k ∧
      e.Fed (Work.left (e.place customer items) w) k spare
    rw [hsame]
    exact ⟨hq, hf⟩
  · obtain ⟨stamp, horders⟩ := hplaced.orders
    have hnumber : o.number.Fits := hfits o.number (o.touch stamp) <| by
      show (Work.left (e.place customer items) w).orders.find? o.number = _
      rw [horders]
      exact Index.find?_insert_self ..
    have hturn : (Operation.place customer items).InTurn w k := trivial
    exact ⟨hplaced.queued hq
      ⟨hq.orderly.toTidy.operation (.place customer items), hconduct.sound⟩ (hturn.kept e)
      hconduct.onward hnumber, hf.placed hq hplaced hnumber⟩

theorem Fed.addInventory (item : String) (q : Quantity)
    (hroom : ((Operation.addInventory item q).run e w).Roomy) :
    ((Operation.addInventory item q).run e w).Queued e.menu k ∧
      e.Fed ((Operation.addInventory item q).run e w) k spare := by
  have hlight := light_addInventory e w item q
  have hturn : (Operation.addInventory item q).InTurn w k := trivial
  have hadded : WorkEnds .first (e.addInventory item q) w _ := e.ends_addInventory item q
  rcases hadded.of_first with ⟨-, hsame⟩ | ⟨-, new, hs⟩
  · show (Work.left (e.addInventory item q) w).Queued e.menu k ∧
      e.Fed (Work.left (e.addInventory item q) w) k spare
    rw [hsame]
    exact ⟨hq, hf⟩
  · have horders : ((Operation.addInventory item q).run e w).orders = w.orders :=
      congrArg (·.store.orders) hs.store
    refine ⟨hq.light hturn hlight (horders ▸ List.Subset.refl _), ?_⟩
    exact hf.supplied hs (pending_apart hq hturn rfl hs.mail) (fun _ => Nat.zero_le _)
      (fun i y hy => absurd hy (Multiset.notMem_zero y))
      (World.awaited_of_same horders (newcomers_apart hq hturn rfl hlight))
      hq.orderly.announces hroom

theorem Fed.handle (hk : e.settings.kitchen = true) (hturn : (Operation.handle x).InTurn w k)
    (hroom : (e.handled x w).Roomy)
    (hfits : ∀ n o, (e.handled x w).orders.find? n = some o → n.Fits) :
    (e.handled x w).Queued e.menu (k + 1) ∧ e.Fed (e.handled x w) (k + 1) fun i =>
      spare i + (Operation.handle x).overtakes e w k i := by
  have hlight := light_handle hq.orderly x
  cases hx : x.placed? with
  | some n =>
    have hfirst : n ∈ w.newcomers k := by
      rw [newcomers_handle (e := e) hq hturn, hx]
      exact List.mem_cons_self ..
    obtain ⟨o, ho⟩ := hq.stored n hfirst
    obtain ⟨o', ho', -⟩ := (hq.orderly.conduct (.handle x)).onward n o ho
    obtain ⟨hserved, hfed⟩ := hf.handle_placed hq hturn hk hx (hfits n o' ho')
    refine ⟨hq.light hturn hlight fun j hj => hserved.mem_keys.1 hj, ?_⟩
    simp only [Operation.overtakes, hx, Option.isSome_some, if_true]
    exact hfed
  | none =>
    obtain ⟨hkeys, hfed⟩ := hf.handle_other hq hturn hx hroom
    refine ⟨hq.light hturn hlight hkeys, ?_⟩
    simp only [Operation.overtakes, hx, Option.isSome_none, Bool.false_eq_true, if_false]
    exact hfed

/-- **Every operation in turn leaves awaited orders cooked for**, as far as they are not
overtaken. -/
theorem Fed.operation (hk : e.settings.kitchen = true) (hturn : op.InTurn w k)
    (hroom : (op.run e w).Roomy)
    (hfits : ∀ n o, (op.run e w).orders.find? n = some o → n.Fits) :
    (op.run e w).Queued e.menu (k + op.handles) ∧
      e.Fed (op.run e w) (k + op.handles) fun i => spare i + op.overtakes e w k i := by
  cases op with
  | place customer items => exact hf.place hq customer items hfits
  | addInventory item q => exact hf.addInventory hq item q hroom
  | handle x => exact hf.handle hq hk hturn hroom hfits
  | rest wait limit =>
    exact hf.apart hq hturn rfl (by rintro y ⟨⟩) (w.aside_await .first wait limit)
  | settle => exact hf.apart hq hturn rfl (by rintro y ⟨⟩) (w.aside_passWhile _)
  | _ => cases hturn

end Steps

/-! ### Main statement -/

theorem Fed.run (hk : e.settings.kitchen = true) {ops : List Operation} (hq : w.Queued e.menu k)
    (hf : e.Fed w k spare) (hturn : e.InTurn w k ops) (hroom : e.Roomy w ops)
    (hfits : ∀ n o, (e.runFrom w ops).orders.find? n = some o → n.Fits) :
    (e.runFrom w ops).Queued e.menu (k + handlings ops) ∧
      e.Fed (e.runFrom w ops) (k + handlings ops) fun i => spare i + e.overtaken i w k ops := by
  induction ops generalizing w k spare with
  | nil => exact ⟨hq, hf⟩
  | cons op r ih =>
    obtain ⟨hop, hturn⟩ := hturn
    obtain ⟨-, hroom⟩ := hroom
    have hnow : (op.run e w).Roomy := by
      cases r with
      | nil => exact hroom
      | cons => exact hroom.1
    have hw := (hq.orderly.toTidy.operation (e := e) op)
    have honward := (World.Orderly.conduct_run ⟨hw, (hq.orderly.conduct op).sound⟩ r).onward
    have hstep := hf.operation hq hk hop hnow fun n o ho => by
      obtain ⟨o', ho', -⟩ := honward n o ho
      exact hfits n o' ho'
    have hrest := ih hstep.1 hstep.2 hturn hroom hfits
    have hcount : k + handlings (op :: r) = k + op.handles + handlings r := by
      unfold handlings
      rw [List.map_cons, List.sum_cons, Nat.add_assoc]
    have hsum : (fun i => spare i + e.overtaken i w k (op :: r)) = fun i =>
        spare i + op.overtakes e w k i + e.overtaken i (op.run e w) (k + op.handles) r := by
      funext i
      rw [overtaken, Nat.add_assoc]
    rw [hcount, hsum]
    exact hrest

theorem fed_start (e : Engine) : e.Fed e.start 0 fun _ => 0 where
  covered _ _ := Nat.zero_le _
  announced _ _ := .inl rfl
  instant _ _ := rfl

/-- When no message is left, nothing is awaited but what was taken out of turn. -/
theorem Fed.awaited_le (h : e.Fed w k spare) (hw : w.Orderly e.menu) (hnone : w.pending k = 0)
    (i : String) : w.awaited k i ≤ spare i := by
  by_contra hlt
  have hshort := w.awaited_le_short k i
  obtain ⟨b, hb⟩ := hw.isInstant_of_short (i := i) (by omega)
  cases b with
  | true =>
    have := h.instant i hb
    omega
  | false =>
    have hcovered := h.covered i hb
    rw [hnone] at hcovered
    have hexpected : e.expected i 0 = 0 := rfl
    rcases h.announced i hb with h0 | h0 | ⟨x, hx, -⟩
    · omega
    · omega
    · rw [hnone] at hx
      exact Multiset.notMem_zero x hx

/-- **Nobody is left waiting who was not overtaken.** Let orders be placed, units added and
messages handled, each once and in the order of sending, with the kitchen at work, nothing failing
and no count in stock at its largest. When no message is left to be handled or to be sent, no more
units of an item are missing than new orders took while orders before them missed some; so every
order is ready or collected, or misses an item of which it was overtaken. -/
theorem ready_unless_overtaken (e : Engine) (hk : e.settings.kitchen = true) (ops : List Operation)
    (hturn : e.InTurn e.start 0 ops) (hroom : e.Roomy e.start ops)
    (hfits : ∀ n o, (e.after ops).orders.find? n = some o → n.Fits)
    (hinbox : (e.after ops).inbox (handlings ops) = []) (hunder : (e.after ops).underWay = 0) :
    (∀ i, (e.after ops).short i ≤ e.overtaken i e.start 0 ops) ∧
      ∀ n o, (e.after ops).orders.find? n = some o → o.status = .ready ∨ o.status = .collected ∨
        ∃ i, 0 < o.short i ∧ 0 < e.overtaken i e.start 0 ops := by
  obtain ⟨hq, hf⟩ := e.fed_start.run hk (World.Queued.start e) hturn hroom hfits
  rw [Nat.zero_add] at hq hf
  have hpending : (e.after ops).pending (handlings ops) = 0 := by
    unfold World.pending
    rw [hinbox, hunder]
    rfl
  have hnobody : (e.after ops).newcomers (handlings ops) = [] := by
    unfold World.newcomers
    rw [hinbox]
    rfl
  have hbound : ∀ i, (e.after ops).short i ≤ e.overtaken i e.start 0 ops := fun i => by
    have hle := hf.awaited_le hq.orderly hpending i
    rw [Nat.zero_add] at hle
    exact (World.awaited_of_none hnobody i).symm.trans_le hle
  refine ⟨hbound, fun n o ho => ?_⟩
  have hsound := (hq.orderly.sound n o ho).1
  by_cases hshort : ∃ i, 0 < o.short i
  · obtain ⟨i, hi⟩ := hshort
    have hle : o.short i ≤ (e.after ops).short i := Index.le_total (fun o => o.short i) ho
    exact .inr (.inr ⟨i, hi, by have := hbound i; omega⟩)
  · have hfinished : o.status = .ready ∨ o.status = .collected := by
      rw [hsound.finished_iff, hsound.packedUnits_eq_iff]
      intro i
      by_contra hne
      exact hshort ⟨i, Nat.pos_of_ne_zero hne⟩
    exact hfinished.imp_right .inl

/-- A run in which an order is overtaken: the second order is placed while the kitchen is asked for
the first one, and handled before it is told that units arrived. -/
def overtaking : List Operation :=
  [.place ⟨1⟩ [⟨"fries", Quantity.one⟩],
    .handle (.orderPlaced ⟨1⟩ (Timestamp.ofMillis 0)),
    .place ⟨2⟩ [⟨"fries", Quantity.one⟩],
    .handle (.itemRequested ⟨1⟩ ⟨"fries", Quantity.one⟩ (RequestKey.ofSerial 0)
      (Timestamp.ofMillis 0)),
    .settle,
    .handle (.orderPlaced ⟨2⟩ (Timestamp.ofMillis 0)),
    .settle,
    .handle (.itemAdded ⟨"fries", Quantity.one⟩ (Timestamp.ofMillis 3000)),
    .handle (.statusUpdated ⟨2⟩ .ready (Timestamp.ofMillis 3000))]

/-- The units of which the first order was overtaken are those that are missing in the end. -/
theorem overtaken_fries :
    (after {} overtaking).short "fries" = 1 ∧
      (after {} overtaking).short "fries" ≤ overtaken {} "fries" (start {}) 0 overtaking ∧
      overtaken {} "fries" (start {}) 0 overtaking = 1 := by
  have hnumbers : ((after {} overtaking).orders.entries.all fun x =>
      Text.fitsSigned 64 x.1.value) = true := by decide +kernel
  refine ⟨by decide +kernel, (ready_unless_overtaken {} (by decide) overtaking (by decide +kernel)
    (by decide +kernel) ?_ (by decide +kernel) (by decide +kernel)).1 "fries", by decide +kernel⟩
  exact fun n o ho => List.all_eq_true.1 hnumbers _ (Index.find?_eq_some_iff.1 ho)

/-- An order that was overtaken waits when everything was handled, although nothing failed. -/
theorem overtaken_waits :
    (({} : Engine).settings.kitchen = true ∧ InTurn {} (start {}) 0 overtaking ∧
      Roomy {} (start {}) overtaking ∧ (after {} overtaking).inbox (handlings overtaking) = [] ∧
      (after {} overtaking).underWay = 0) ∧
    ((after {} overtaking).orders.find? ⟨1⟩).map (·.status) = some .requested := by
  decide +kernel

end Engine

end Takeaway
