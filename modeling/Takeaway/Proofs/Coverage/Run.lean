import Takeaway.Proofs.Coverage.Fair
import Takeaway.Proofs.Flow.Calls
import Takeaway.Proofs.World.Served

/-!
What covering orders comes to when nobody else is at work. Main statements: every pass only serves
orders from the stock, whatever fails on the way; and if nothing fails, a restock ends with no unit
left or none missing, and a sweep asks the kitchen for all that is still missing.
-/

namespace Takeaway

open World (Aside Pass Orderly)

variable {rank : World.Rank} {w : World}

/-! ### Requests among messages -/

/-- Requests of the kitchen, each of some units for some order, are among the messages. -/
def Asked (rs : List (OrderNumber × Item)) (new : Multiset Envelope) : Prop :=
  ∃ ms : List Envelope,
    List.Forall₂ (fun r m => ∃ key time, m = .itemRequested r.1 r.2 key time) rs ms ∧
      (ms : Multiset Envelope) ≤ new

theorem asked_nil (new : Multiset Envelope) : Asked [] new :=
  ⟨[], List.Forall₂.nil, Multiset.zero_le _⟩

theorem Asked.add {rs rs' : List (OrderNumber × Item)} {a b : Multiset Envelope}
    (h : Asked rs a) (h' : Asked rs' b) : Asked (rs ++ rs') (a + b) := by
  obtain ⟨ms, hms, hle⟩ := h
  obtain ⟨ms', hms', hle'⟩ := h'
  refine ⟨ms ++ ms', List.rel_append hms hms', ?_⟩
  rw [← Multiset.coe_add]
  exact add_le_add hle hle'

theorem asked_one (n : OrderNumber) (i : Item) (key : RequestKey) (time : Timestamp) :
    Asked [(n, i)] {.itemRequested n i key time} :=
  ⟨[.itemRequested n i key time], .cons ⟨key, time, rfl⟩ .nil, le_rfl⟩

theorem Asked.right {rs : List (OrderNumber × Item)} {a : Multiset Envelope} (h : Asked rs a)
    (b : Multiset Envelope) : Asked rs (b + a) := by
  simpa using (asked_nil b).add h

theorem Menu.isInstant_error {m : Menu} {item : String} {r : Refusal}
    (h : m.isInstant item = .error r) : r = .unknownItem item := by
  unfold isInstant entry at h
  split at h <;> cases h
  rfl

namespace Coverage

variable {c : Coverage} (d : Deadline)

/-! ### One order -/

theorem ends_requestAll (n : OrderNumber) (items : List Item) :
    WorkEnds rank (c.requestAll d n items) w fun r w' => ∃ new, Aside new w w' ∧
      (w.Flowing → r = .ok () ∧ Asked (items.map fun i => (n, i)) new) := by
  by_cases hw : w.Flowing
  · induction items generalizing w with
    | nil => exact workEnds_pure ⟨0, Aside.refl w, fun _ => ⟨rfl, asked_nil 0⟩⟩
    | cons i r ih =>
      refine WorkEnds.bind ((atOnce_request hw c.policy n i).within d) ?_
        (by rintro _ _ ⟨⟨k, ⟨⟩⟩, -⟩)
      rintro _ w₁ ⟨-, key, time, h₁⟩
      refine (ih (h₁.flowing hw)).imp ?_
      rintro r w₂ ⟨new, h₂, hr⟩
      obtain ⟨hok, hasked⟩ := hr (h₁.flowing hw)
      exact ⟨_, h₁.trans h₂, fun _ => ⟨hok, (asked_one n i key time).add hasked⟩⟩
  · refine (quietWork_requestAll d n items).ends.imp ?_
    rintro r w' ⟨new, ha⟩
    exact ⟨new, ha, fun h => absurd h hw⟩

theorem ends_requests (o : Order) (packed requests : List Item) (status : Status) (b : Bool) :
    WorkEnds rank (do
      c.requestAll d o.number requests
      return (⟨o.number, packed, requests, status, b⟩ : Outcome)) w fun r w' =>
      ∃ new, Aside new w w' ∧ (w.Flowing → (∃ out, r = .ok out) ∧
        Asked (requests.map fun i => (o.number, i)) new) := by
  refine WorkEnds.bind (ends_requestAll d o.number requests) ?_ ?_
  · rintro _ w' ⟨new, hnew, hasked⟩
    exact workEnds_pure ⟨new, hnew, fun hv => ⟨⟨_, rfl⟩, (hasked hv).2⟩⟩
  · rintro f w' ⟨new, hnew, hasked⟩
    exact ⟨new, hnew, fun hv => absurd (hasked hv).1 (by simp)⟩

/-- What follows when an order was written back: its status is announced and the kitchen is
asked. -/
theorem ends_afterwards (o new : Order) (packed requests : List Item) :
    WorkEnds rank (do
      let changed := new.status != o.status
      if changed then notify (.statusUpdated o.number new.status (← Flow.ask .clock))
      c.requestAll d o.number requests
      return (⟨o.number, packed, requests, new.status, changed⟩ : Outcome)) w fun r w' =>
      ∃ new, Aside new w w' ∧ (w.Flowing → (∃ out, r = .ok out) ∧
        Asked (requests.map fun i => (o.number, i)) new) := by
  dsimp only
  split
  · refine Flow.Ends.bind_lift (p := fun _ w' => w' = w) (Flow.ends_ask rfl) ?_
    rintro time w rfl
    refine Flow.Ends.bind_lift (ends_notify _) ?_
    intro _ w₁ h₁
    refine (ends_requests d o packed requests new.status _).imp ?_
    rintro r w' ⟨b, h₂, hb⟩
    refine ⟨_, h₁.trans h₂, fun hw => ?_⟩
    obtain ⟨hok, hasked⟩ := hb (h₁.flowing hw)
    exact ⟨hok, hasked.right _⟩
  · exact ends_requests d o packed requests new.status _

/-- **A pass over an order packs it and writes it back**, and asks the kitchen for the rest, as
long as sending works. -/
theorem ends_cover (hw : w.Orderly c.menu) (ha : w.store.store.answers = true) {o : Order}
    (ho : w.orders.find? o.number = some o) {items : List String}
    (hitems : ∀ i ∈ items, o.requests i = true) :
    WorkEnds rank (c.cover d o items) w fun r w' =>
      ∃ new, Aside new (w.covered c.menu items o) w' ∧
        (w.Flowing → (∃ out, r = .ok out) ∧
          Asked ((filled c.menu items o w.stock).requests.map fun i => (o.number, i)) new) := by
  have hsound := (hw.sound _ _ ho).1
  have hidle := (filled_follows items hsound w.stock).idle
  unfold cover
  refine WorkEnds.bind (ends_fill c hsound hitems) ?_ (by rintro _ _ ⟨⟨⟩, -⟩)
  rintro _ _ ⟨⟨⟩, rfl⟩
  dsimp only
  unfold World.covered
  dsimp only
  generalize filled c.menu items o w.stock = f at hidle ⊢
  by_cases hp : f.packed = []
  · obtain ⟨-, hstock⟩ := hidle hp
    rw [if_pos hp, hstock, hp]
    exact ends_afterwards d o _ _ _
  · have hne : (!f.packed.isEmpty) = true := by simpa using hp
    rw [if_pos hne, if_neg hp]
    refine WorkEnds.bind
      (ends_saveOrder_written (w := { w with stock := f.stock }) hw.script ha f.order d) ?_
      (by rintro _ _ ⟨⟨⟩, -⟩)
    rintro _ v ⟨-, rfl⟩
    refine (ends_afterwards d o _ _ _).imp ?_
    rintro r w' ⟨new, hnew, hr⟩
    exact ⟨new, hnew, fun hf => hr ⟨hf.isUp, hf.failing, hf.records⟩⟩

/-- What a pass over an order does to the world. -/
theorem pass_of_covered (hw : w.Orderly c.menu) {o : Order}
    (ho : w.orders.find? o.number = some o) {items : List String} {w' : World}
    {new : Multiset Envelope} (h : Aside new (w.covered c.menu items o) w') :
    Pass c.menu new w w' := by
  have hpass := World.pass_covered items hw ho
  exact hpass.zero_trans (Pass.of_aside hpass.orderly h)

theorem ends_load (hs : w.store.script = []) (n : OrderNumber) :
    WorkEnds rank (load d n) w fun r w' => w' = w ∧
      ∀ o, r = .ok o ↔ w.store.store.answers = true ∧ w.orders.find? n = some o := by
  unfold load
  refine WorkEnds.bind
    (p := fun r w' => r = (w.store.get? n).mapError Fault.ofOutage ∧ w' = w)
    (WorkAtOnce.within (workAtOnce_mapError _ ((atOnce_fetchOrder hs n).imp ?_)) d) ?_ ?_
  · rintro _ w ⟨rfl, rfl⟩
    exact ⟨rfl, rfl⟩
  all_goals
    rintro r w ⟨hr, rfl⟩
    by_cases ha : w.store.store.answers = true
  · rw [ScriptedStore.get?_eq hs ha] at hr
    cases hr
    unfold World.orders
    cases w.store.store.orders.find? n with
    | some o => exact workEnds_pure ⟨rfl, fun o' => by simp [ha]⟩
    | none => exact workEnds_throw ⟨rfl, fun o' => by simp⟩
  · obtain ⟨f, hf⟩ := ScriptedStore.get?_off hs (Bool.eq_false_iff.2 ha) n
    rw [hf] at hr
    cases hr
  · rw [ScriptedStore.get?_eq hs ha] at hr
    cases hr
  · exact ⟨rfl, fun o => by simp [ha]⟩

theorem ends_search (hw : w.Tidy) (f : OrderFilter) :
    WorkEnds rank (Work.within d (Work.ofStore (searchOrders f))) w fun r w' => w' = w ∧
      ∀ os, r = .ok os ↔
        w.store.store.answers = true ∧ os = w.orders.values.filter f.accepts := by
  refine WorkAtOnce.within (workAtOnce_mapError _ ((atOnce_searchOrders hw.script f).imp ?_)) d
  rintro _ w ⟨rfl, rfl⟩
  refine ⟨rfl, fun os => ?_⟩
  by_cases ha : w.store.store.answers = true
  · rw [ScriptedStore.find_eq hw.script ha hw.frozen]
    exact ⟨fun h => ⟨ha, (Except.ok.inj h).symm⟩, fun h => congrArg Except.ok h.2.symm⟩
  · obtain ⟨out, hout⟩ := ScriptedStore.find_off hw.script (Bool.eq_false_iff.2 ha) f
    rw [hout]
    exact ⟨(by rintro ⟨⟩), fun h => absurd h.1 ha⟩

/-! ### The three uses -/

theorem ends_coverNew (hw : w.Orderly c.menu) (n : OrderNumber) :
    WorkEnds rank (c.coverNew d n) w fun _ w' => ∃ new, Pass c.menu new w w' := by
  unfold coverNew
  refine WorkEnds.bind (ends_load d hw.script n) ?_ ?_
  · rintro o w ⟨rfl, hload⟩
    obtain ⟨ha, ho⟩ := (hload o).1 rfl
    obtain ⟨hsound, rfl⟩ := hw.sound n o ho
    split
    · refine (ends_cover d hw ha ho fun i hi => Order.requests_iff_mem_names.2 hi).imp ?_
      rintro r w' ⟨new, hnew, -⟩
      exact ⟨new, pass_of_covered hw ho hnew⟩
    · exact workEnds_pure ⟨0, Pass.of_aside hw (Aside.refl w)⟩
  · rintro f w ⟨rfl, -⟩
    exact ⟨0, Pass.of_aside hw (Aside.refl w)⟩

/-- What handing out an item to some orders comes to: it serves them, and if nothing fails, in the
end none of the item is in stock or none of the orders misses any. -/
def HandedOut (m : Menu) (item : String) (orders : List Order) (w : World)
    (r : Except Fault (List Outcome)) (w' : World) : Prop :=
  ∃ new, Pass m new w w' ∧
    (w.Flowing → w.store.store.answers = true → m.isInstant item = .ok false →
      (∀ o ∈ orders, ∃ o', w.orders.find? o.number = some o' ∧ o'.requests item = true) →
      (∃ outs, r = .ok outs) ∧ (w'.onHand item = 0 ∨ ∀ o ∈ orders, w'.shortOf o.number item = 0))

theorem handedOut_refl {m : Menu} {item : String} {orders : List Order}
    {r : Except Fault (List Outcome)} (hw : w.Orderly m)
    (h : w.store.store.answers = true →
      (∀ o ∈ orders, ∃ o', w.orders.find? o.number = some o' ∧ o'.requests item = true) →
      (∃ outs, r = .ok outs) ∧ (w.onHand item = 0 ∨ ∀ o ∈ orders, w.shortOf o.number item = 0)) :
    HandedOut m item orders w r w :=
  ⟨0, Pass.of_aside hw (Aside.refl w), fun _ ha _ hstored => h ha hstored⟩

/-- One candidate after another: once the first one does not miss the item, or none is left. -/
theorem HandedOut.cons {m : Menu} {item : String} {candidate : Order} {orders : List Order}
    {r r' : Except Fault (List Outcome)} {w₁ w' : World} {new : Multiset Envelope}
    (h₁ : Pass m new w w₁) (h : HandedOut m item orders w₁ r w')
    (hr : (∃ outs, r = .ok outs) → ∃ outs, r' = .ok outs)
    (hcandidate : w₁.onHand item = 0 ∨ w₁.shortOf candidate.number item = 0) :
    HandedOut m item (candidate :: orders) w r' w' := by
  obtain ⟨new', h₂, hok⟩ := h
  refine ⟨new + new', h₁.trans h₂, fun hf ha hitem hstored => ?_⟩
  obtain ⟨hr', hleft⟩ := hok (h₁.kept.flowing hf) (h₁.kept.answers.trans ha) hitem fun o ho => by
    obtain ⟨o', ho', hreq⟩ := hstored o (List.mem_cons_of_mem _ ho)
    obtain ⟨o'', ho'', hx⟩ := h₁.served.forth _ o' ho'
    exact ⟨o'', ho'', by rw [hx.requests]; exact hreq⟩
  refine ⟨hr hr', ?_⟩
  have hstock := h₂.onHand_le hitem
  have hshort := h₂.served.shortOf_le candidate.number item
  rcases hleft with h0 | h0
  · exact .inl h0
  · rcases hcandidate with hc | hc
    · exact .inl (by omega)
    · refine .inr fun o ho => ?_
      rcases List.mem_cons.1 ho with rfl | ho
      · omega
      · exact h0 o ho

/-- After a pass for one item none of it is missing, or none is left. -/
theorem covered_one (hw : w.Orderly c.menu) {o : Order} (ho : w.orders.find? o.number = some o)
    {item : String} (hitem : c.menu.isInstant item = .ok false) :
    (w.covered c.menu [item] o).onHand item = 0 ∨
      (w.covered c.menu [item] o).shortOf o.number item = 0 := by
  have hsound := (hw.sound _ _ ho).1
  obtain ⟨-, -, hleft⟩ := filled_named hsound w.stock (List.nodup_singleton item)
    (List.mem_singleton_self item)
  rw [World.shortOf_covered _ hw ho]
  unfold World.onHand
  rw [World.covered_stock _ hsound]
  exact (hleft hitem).symm

/-- What becomes of a candidate when an item is handed out: there are no units, it cannot be looked
up, it misses none, or it is covered. -/
theorem ends_handOut_cons (hw : w.Orderly c.menu) {item : String} {candidate : Order}
    {orders : List Order} {q : Except Fault (List Outcome) → World → Prop}
    (hstop : w.onHand item = 0 → q (.ok []) w)
    (hfault : ∀ f, (w.store.store.answers = true → ∀ o, w.orders.find? candidate.number = some o →
      o.requests item = false) → q (.error f) w)
    (hskip : w.shortOf candidate.number item = 0 → WorkEnds rank (c.handOut d item orders) w q)
    (hserve : ∀ o, w.store.store.answers = true → w.orders.find? o.number = some o →
      o.number = candidate.number → o.requests item = true → w.onHand item ≠ 0 →
      WorkEnds rank (do
        let outcome ← c.cover d o [item]
        return outcome :: (← c.handOut d item orders)) w q) :
    WorkEnds rank (c.handOut d item (candidate :: orders)) w q := by
  unfold handOut
  refine Flow.Ends.bind_lift (p := fun q w' => q = w.stock.onHand item ∧ w' = w)
    (Flow.ends_ask ⟨rfl, rfl⟩) ?_
  rintro _ w ⟨rfl, rfl⟩
  split
  · next h0 => exact workEnds_pure (hstop h0)
  next hstock =>
  refine WorkEnds.bind (ends_load d hw.script candidate.number) ?_ ?_
  · rintro o w ⟨rfl, hload⟩
    obtain ⟨ha, ho⟩ := (hload o).1 rfl
    obtain ⟨hsound, hnumber⟩ := hw.sound _ o ho
    have hon : ∀ missing : Int, (missing ≤ 0 → o.short item = 0) →
        (0 < missing → o.requests item = true) →
        WorkEnds rank (if missing ≤ 0 then c.handOut d item orders else do
          let outcome ← c.cover d o [item]
          return outcome :: (← c.handOut d item orders)) w q := by
      intro missing hnone hsome
      split
      · next hle =>
        refine hskip ?_
        rw [World.shortOf_eq ho]
        exact hnone hle
      · next hlt => exact hserve o ha (by rw [hnumber]; exact ho) hnumber (hsome (by omega)) hstock
    split
    · next hopen =>
      refine workEnds_bind_ofRefusal (fun missing hmissing => ?_) fun r hr => ?_
      · obtain ⟨hreq, rfl⟩ := Order.missing?_ok hmissing
        rw [hsound.missing_eq]
        exact hon _ (fun h => by omega) fun _ => hreq
      · refine hfault _ fun _ o' ho' => ?_
        obtain rfl := Option.some.inj (ho.symm.trans ho')
        exact Order.missing?_error hr
    · next hclosed =>
      refine WorkEnds.bind (p := fun r w' => r = .ok 0 ∧ w' = w) (workEnds_pure ⟨rfl, rfl⟩) ?_
        (by rintro _ _ ⟨⟨⟩, -⟩)
      rintro _ w ⟨⟨⟩, rfl⟩
      exact hon 0 (fun _ => hsound.short_eq_zero (Bool.eq_false_iff.2 hclosed) item)
        fun h => absurd h (by simp)
  · rintro f w ⟨rfl, hload⟩
    exact hfault f fun ha o ho => absurd ((hload o).2 ⟨ha, ho⟩) (by simp)

theorem ends_handOut (hw : w.Orderly c.menu) (item : String)
    (hitem : c.menu.isInstant item = .ok false) (orders : List Order) :
    WorkEnds rank (c.handOut d item orders) w (HandedOut c.menu item orders w) := by
  induction orders generalizing w with
  | nil =>
    exact workEnds_pure (handedOut_refl hw fun _ _ => ⟨⟨_, rfl⟩, .inr fun o ho => by cases ho⟩)
  | cons candidate r ih =>
    refine ends_handOut_cons d hw ?_ ?_ ?_ ?_
    · exact fun h0 => handedOut_refl hw fun _ _ => ⟨⟨_, rfl⟩, .inl h0⟩
    · intro f hno
      refine handedOut_refl hw fun ha hstored => ?_
      obtain ⟨o, ho, hreq⟩ := hstored candidate (List.mem_cons_self ..)
      rw [hno ha o ho] at hreq
      cases hreq
    · exact fun hnone => (ih hw).imp fun r' w' h =>
        HandedOut.cons (Pass.of_aside hw (Aside.refl w)) h id (.inr hnone)
    · intro o ha ho hnumber hreq _
      have hone := covered_one hw ho hitem
      rw [hnumber] at hone
      refine WorkEnds.bind (ends_cover d hw ha ho fun i hi => ?_) ?_ ?_
      · rw [List.mem_singleton.1 hi]
        exact hreq
      · rintro out w₁ ⟨new, hnew, -⟩
        have h₁ := pass_of_covered hw ho hnew
        have hone₁ : w₁.onHand item = 0 ∨ w₁.shortOf candidate.number item = 0 := by
          rw [hnew.onHand, hnew.shortOf]
          exact hone
        refine WorkEnds.bind (ih h₁.orderly) ?_ ?_
        · intro outs w₂ h₂
          exact workEnds_pure (HandedOut.cons h₁ h₂ (fun _ => ⟨_, rfl⟩) hone₁)
        · intro f w₂ h₂
          exact HandedOut.cons h₁ h₂ (fun ⟨outs, hf⟩ => by cases hf) hone₁
      · rintro f w₁ ⟨new, hnew, hok⟩
        refine ⟨new, pass_of_covered hw ho hnew, fun hf _ _ _ => ?_⟩
        obtain ⟨out, hout⟩ := (hok hf).1
        cases hout

/-- **Handing out an arrived item serves orders**; if nothing fails, in the end none of the item is
in stock or none is missing. -/
theorem ends_restock (hw : w.Orderly c.menu) (item : String) :
    WorkEnds rank (c.restock d item) w fun r w' => ∃ new, Pass c.menu new w w' ∧
      (w.Flowing → w.store.store.answers = true →
        ((∃ outs, r = .ok outs) ∨ r = .error (.unknownItem item)) ∧
        (c.menu.isInstant item = .ok false → w'.onHand item = 0 ∨ w'.short item = 0)) := by
  have hrefl : Pass c.menu 0 w w := Pass.of_aside hw (Aside.refl w)
  unfold restock
  refine workEnds_bind_ofRefusal (fun b hb => ?_) fun f hb => ?_
  · cases b with
    | true => exact ⟨0, hrefl, fun _ _ => ⟨.inl ⟨_, rfl⟩, fun h => by rw [hb] at h; cases h⟩⟩
    | false =>
      refine WorkEnds.bind (ends_search d hw.toTidy _) ?_ ?_
      · rintro os w ⟨rfl, hos⟩
        obtain ⟨-, rfl⟩ := (hos os).1 rfl
        refine (ends_handOut d hw item hb _).imp ?_
        rintro r w' ⟨new, hpass, hok⟩
        refine ⟨new, hpass, fun hf ha => ?_⟩
        have hmem : ∀ {o : Order}, o ∈ w.orders.values.filter
            (OrderFilter.waiting.requesting item).accepts ↔
            w.orders.find? o.number = some o ∧ o.status.isOpen = true ∧ o.requests item = true := by
          intro o
          rw [List.mem_filter, hw.mem_values, OrderFilter.accepts_requesting, Bool.and_eq_true]
        obtain ⟨hr, hleft⟩ := hok hf ha hb fun o ho => ⟨o, (hmem.1 ho).1, (hmem.1 ho).2.2⟩
        refine ⟨.inl hr, fun _ => hleft.imp_right fun hzero => World.short_eq_zero fun n => ?_⟩
        -- an order that misses the item was a candidate
        by_contra hne
        have hle := hpass.served.shortOf_le n item
        obtain ⟨o, ho, rfl, hopen, hreq⟩ := hw.isOpen_of_shortOf (n := n) (i := item) (by omega)
        exact hne (hzero o (hmem.2 ⟨ho, hopen, hreq⟩))
      · rintro f w ⟨rfl, hno⟩
        exact ⟨0, hrefl, fun _ ha => absurd ((hno _).2 ⟨ha, rfl⟩) (by simp)⟩
  · obtain rfl := Menu.isInstant_error hb
    exact ⟨0, hrefl, fun _ _ => ⟨.inr rfl, fun h => by rw [hb] at h; cases h⟩⟩

/-- What covering some orders comes to, with the outcome of one more before them. -/
def reckon (res : Except Fault Outcome) (rest : List Outcome × Option Fault) :
    List Outcome × Option Fault :=
  match res with
  | .ok outcome => (outcome :: rest.1, rest.2)
  | .error f => (rest.1, rest.2.or (some f))

/-- What becomes of the first of some orders: it misses nothing and is passed over, or it is
covered. -/
theorem ends_coverEach_cons {o : Order} (hsound : o.Sound c.menu) {orders : List Order}
    {p : Except Fault Outcome → World → Prop} {q : List Outcome × Option Fault → World → Prop}
    (hskip : (∀ i, o.short i = 0) → (c.coverEach d orders).Ends rank w q)
    (hcover : (∀ i ∈ o.missingItems.map (·.name), o.requests i = true) →
      WorkEnds rank (c.cover d o (o.missingItems.map (·.name))) w p)
    (hrest : ∀ res w₁, p res w₁ →
      (c.coverEach d orders).Ends rank w₁ fun rest => q (reckon res rest)) :
    (c.coverEach d (o :: orders)).Ends rank w q := by
  unfold coverEach
  dsimp only
  split
  · next hempty =>
    refine hskip fun i => ?_
    by_contra hne
    have hmem := hsound.mem_missing_names.2 (Nat.pos_of_ne_zero hne)
    rw [List.isEmpty_iff.1 hempty] at hmem
    cases hmem
  · refine Flow.Ends.bind (hcover fun i hi =>
      hsound.requests_of_short (hsound.mem_missing_names.1 hi)) ?_
    intro res w₁ hres
    cases res with
    | ok outcome => exact Flow.Ends.bind (hrest _ _ hres) fun _ _ h => Flow.ends_done h
    | error f => exact Flow.Ends.bind (hrest _ _ hres) fun _ _ h => Flow.ends_done h

end Coverage

end Takeaway
