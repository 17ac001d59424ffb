import Takeaway.Proofs.Coverage.Run
import Takeaway.Proofs.Duty

/-!
Covering orders is of good conduct, whichever calls of the store and attempts to send fail on the
way. Main statements: a pass over an order writes it over the state that it was read in, tells of
its new status as soon as that is stored, and asks the kitchen for nothing unless that came off;
and handing out an arrived item says something only after some units were packed for good.
-/

namespace Takeaway

open World (Aside)

variable {w w' w'' : World} {m : Menu} {l l' : List Deed}

/-! ### Packing -/

/-- The actions of packing. -/
def Action.draws : Action → Bool
  | .onHand _ | .take _ _ => true
  | _ => false

namespace Flow

variable {α β : Type}

/-- A flow that does nothing but look at the stock and take units out of it. -/
def Draws : Flow α → Prop
  | done _ => True
  | act a next => a.draws = true ∧ ∀ r, (next r).Draws
  | wait _ _ _ => False

theorem Draws.bind {x : Flow α} {f : α → Flow β} (hx : x.Draws) (hf : ∀ a, (f a).Draws) :
    (x.bind f).Draws := by
  induction x with
  | done a => exact hf a
  | act a next ih => exact ⟨hx.1, fun r => ih r (hx.2 r)⟩
  | wait wt limit next ih => cases hx

/-- Nothing can come in between, so there is one way through such a flow. -/
theorem Draws.surely {x : Flow α} (hx : x.Draws) {p : α → World → Prop}
    (h : x.Ends .first w p) : x.Surely w fun l a w' => Deeds.Idle l ∧ p a w' := by
  induction x generalizing w with
  | done a => exact surely_done ⟨Deeds.idle_nil, h⟩
  | act a next ih =>
    refine surely_act fun r v hr => ?_
    obtain ⟨ha, hnext⟩ := hx
    have hidle : Deeds.Idle [⟨w, a, v⟩] ∧ r = (w.perform a).1 ∧ v = (w.perform a).2 := by
      cases hr with
      | performed =>
        refine ⟨?_, rfl, rfl⟩
        cases a with
        | onHand item => exact Deeds.idle_one rfl rfl rfl
        | take item q =>
          refine Deeds.idle_one ?_ rfl rfl
          rcases w.take_cases item q with ⟨f, heq⟩ | ⟨s, -, heq⟩ <;> rw [heq] <;> rfl
        | _ => cases ha
      | _ => cases ha
    obtain ⟨hidle, rfl, rfl⟩ := hidle
    exact (ih _ (hnext _) h).imp fun l b w' ⟨hl, hb⟩ => ⟨hidle.append hl, hb⟩
  | wait wt limit next ih => cases hx

end Flow

section Work

variable {ε α β : Type}

/-- Work that does nothing but look at the stock and take units out of it. -/
def DrawsWork (x : ExceptT ε Flow α) : Prop := Flow.Draws x.run

theorem drawsWork_pure (a : α) : DrawsWork (pure a : ExceptT ε Flow α) := trivial

theorem drawsWork_throw (e : ε) : DrawsWork (throw e : ExceptT ε Flow α) := trivial

theorem drawsWork_ofRefusal (x : Except Refusal α) : DrawsWork (Work.ofRefusal x) := trivial

theorem drawsWork_ask {a : Action} (ha : a.draws = true) :
    DrawsWork (ExceptT.lift (Flow.ask a) : ExceptT ε Flow a.Answer) := ⟨ha, fun _ => trivial⟩

theorem DrawsWork.bind {x : ExceptT ε Flow α} {f : α → ExceptT ε Flow β} (hx : DrawsWork x)
    (hf : ∀ a, DrawsWork (f a)) : DrawsWork (x >>= f) := by
  refine Flow.Draws.bind hx fun r => ?_
  cases r with
  | ok a => exact hf a
  | error e => trivial

end Work

namespace Coverage

theorem draws_allocate (item : String) (needed : Quantity) (tries : Nat) :
    DrawsWork (allocate item needed tries) := by
  induction tries with
  | zero => exact drawsWork_pure _
  | succ tries ih =>
    unfold allocate
    refine DrawsWork.bind (drawsWork_ask rfl) fun q => ?_
    dsimp only
    split
    · exact drawsWork_pure _
    · refine DrawsWork.bind (drawsWork_ask rfl) fun r => ?_
      split
      · exact drawsWork_pure _
      · exact ih
      · exact drawsWork_throw _

theorem draws_fill (c : Coverage) (items : List String) (o : Order) :
    DrawsWork (c.fill items o) := by
  induction items generalizing o with
  | nil => exact drawsWork_pure _
  | cons item r ih =>
    unfold fill
    refine DrawsWork.bind (drawsWork_ofRefusal _) fun missing => ?_
    split
    · exact ih o
    · refine DrawsWork.bind ?_ fun a => DrawsWork.bind (ih _) fun s => drawsWork_pure _
      refine DrawsWork.bind (drawsWork_ofRefusal _) fun b => ?_
      cases b
      · exact draws_allocate _ _ _
      · exact drawsWork_pure _

end Coverage

/-! ### Asking the kitchen -/

/-- Asking the kitchen for items. -/
theorem Kitchen.calm_request (policy : RetryPolicy) (n : OrderNumber) (i : Item) :
    CalmWork (fun x => ∃ key time, x = .itemRequested n i key time) (request policy n i) := by
  refine CalmWork.bind (calmWork_lift (Flow.calm_ask trivial)) fun key => ?_
  refine CalmWork.bind (calmWork_lift (Flow.calm_ask trivial)) fun time => ?_
  refine CalmWork.bind (calmWork_publish _ ⟨key, time, rfl⟩) fun _ => ?_
  exact CalmWork.bind (calmWork_lift (Flow.calm_ask trivial)) fun _ => calmWork_pure _

namespace Coverage

variable {c : Coverage} (d : Deadline)

theorem calm_requestAll (n : OrderNumber) (items : List Item) :
    CalmWork (fun x => ∃ i ∈ items, ∃ key time, x = .itemRequested n i key time)
      (c.requestAll d n items) := by
  induction items with
  | nil => exact calmWork_pure _
  | cons i r ih =>
    refine CalmWork.bind (CalmWork.within ?_ d) fun _ => ih.mono ?_
    · refine (Kitchen.calm_request c.policy n i).mono ?_
      rintro x ⟨key, time, rfl⟩
      exact ⟨i, List.mem_cons_self .., key, time, rfl⟩
    · rintro x ⟨j, hj, hx⟩
      exact ⟨j, List.mem_cons_of_mem _ hj, hx⟩

theorem surely_requests (n : OrderNumber) (items : List Item) {α : Type} (a : α) :
    WorkSurely (do c.requestAll d n items; return a) w fun l _ w' => w'.orders = w.orders ∧
      Deeds.Keep l ∧ ∀ x ∈ Deeds.said l, ∃ i ∈ items, ∃ key time,
        x = .itemRequested n i key time := by
  refine (Flow.Calm.surely (CalmWork.bind (calm_requestAll d n items) fun _ =>
    calmWork_pure a) w).imp ?_
  rintro l r w' ⟨hstore, hrest⟩
  exact ⟨congrArg (·.store.orders) hstore, hrest⟩

/-! ### Looking up -/

theorem surely_searchOrders (f : OrderFilter) :
    WorkSurely (Work.within d (Work.ofStore (searchOrders f))) w fun l r w' =>
      Deeds.Idle l ∧ Aside 0 w w' ∧ ∀ os, r = .ok os → w.store.find f = .ok os := by
  refine (surely_within (a := .search f) (f := fun r => r) d .find fun v hv =>
    surely_search hv f).imp ?_
  rintro l r w' (⟨hl, hw', f, rfl⟩ | ⟨l₁, l₂, x, h₁, rfl, ⟨h₂, hw', hx⟩, rfl⟩)
  · exact ⟨hl, hw', (by rintro _ ⟨⟩)⟩
  · exact ⟨h₁.append h₂, hw', fun os h => hx os (Except.of_mapError_ok h)⟩

theorem surely_load (n : OrderNumber) :
    WorkSurely (load d n) w fun l r w' =>
      Deeds.Idle l ∧ Aside 0 w w' ∧ ∀ o, r = .ok o → w'.orders.find? n = some o := by
  unfold load
  refine WorkSurely.bind (p := fun l r w' => Deeds.Idle l ∧ Aside 0 w w' ∧
    ∀ found, r = .ok found → found = w'.orders.find? n)
    ((surely_within (a := .fetch n) (f := fun r => r) d .get fun v hv =>
      surely_fetch hv n).imp ?_) ?_ ?_
  · rintro l r w' (⟨hl, hw', f, rfl⟩ | ⟨l₁, l₂, x, h₁, rfl, ⟨h₂, hw', hx⟩, rfl⟩)
    · exact ⟨hl, hw', (by rintro _ ⟨⟩)⟩
    · exact ⟨h₁.append h₂, hw', fun found h => hx found (Except.of_mapError_ok h)⟩
  · rintro l found v ⟨hl, hv, hfound⟩
    have hfound := hfound found rfl
    cases found with
    | none =>
      refine workSurely_throw ⟨?_, hv, (by rintro _ ⟨⟩)⟩
      rwa [List.append_nil]
    | some o =>
      refine workSurely_pure ⟨?_, hv, ?_⟩
      · rwa [List.append_nil]
      · rintro _ ⟨⟩
        exact hfound.symm
  · rintro l f v ⟨hl, hv, -⟩
    exact ⟨hl, hv, (by rintro _ ⟨⟩)⟩

/-- A write is done at last, or not at all. -/
theorem surely_saveOrder (o : Order) :
    WorkSurely (Work.within d (Work.ofStore (saveOrder o))) w fun l r w' =>
      (Deeds.Idle l ∧ w'.orders = w.orders ∧ ∃ f, r = .error f) ∨
        ∃ l' v, Deeds.Idle l' ∧ Aside 0 w v ∧ l = l' ++ [⟨v, .save o, v.written o⟩] ∧
          w' = v.written o ∧ r = .ok () := by
  refine (surely_within (a := .save o) (f := fun r => r) d .upsert fun v hv =>
    surely_save hv o).imp ?_
  rintro l r w' (⟨hl, hw', f, rfl⟩ |
    ⟨l₁, l₂, x, h₁, rfl, ⟨h₂, hw', f, rfl⟩ | ⟨v, hv, rfl, rfl, rfl⟩, rfl⟩)
  · exact .inl ⟨hl, hw'.orders, f, rfl⟩
  · exact .inl ⟨h₁.append h₂, hw'.orders, _, rfl⟩
  · exact .inr ⟨l₁, v, h₁, hv, rfl, rfl, rfl⟩

/-! ### One order -/

/-- What follows when an order was written back: its status is told, if it is new, and the kitchen
is asked. -/
theorem surely_afterwards (o new : Order) (packed requests : List Item) :
    WorkSurely (do
      let changed := new.status != o.status
      if changed then notify (.statusUpdated o.number new.status (← Flow.ask .clock))
      c.requestAll d o.number requests
      return (⟨o.number, packed, requests, new.status, changed⟩ : Outcome)) w fun l _ w' =>
      Reports o.number o.status new.status requests l w w' := by
  dsimp only
  split
  · next hne =>
    refine Flow.Surely.bind_lift surely_clock ?_
    rintro l₁ time w ⟨h₁, rfl⟩
    refine Flow.Surely.bind_lift (surely_tell o.number (by simpa using hne) time)
      fun l₂ _ v h₂ => ?_
    refine (surely_requests d o.number requests _).imp ?_
    rintro l₃ r w' ⟨horders, hkeep, hsaid⟩
    exact (h₂.append_calm horders hkeep hsaid).of_idle h₁
  · next heq =>
    have heq : new.status = o.status := by simpa using heq
    refine (surely_requests d o.number requests _).imp ?_
    rintro l r w' ⟨horders, hkeep, hsaid⟩
    rw [heq]
    exact (Reports.none w o.number o.status).append_calm horders hkeep hsaid

/-- A pass over an order, which leaves all others alone. If it packs units, it says nothing before
they are packed for good. -/
structure Covers (m : Menu) (o : Order) (items : List String) (l : List Deed) (w w' : World) : Prop
    extends Duty m 2 l w w' where
  others : ∀ n, o.number ≠ n → w'.orders.find? n = w.orders.find? n
  earned : (filled m items o w.stock).packed ≠ [] → Deeds.said l = [] ∨ w'.lacking < w.lacking

/-- An order was packed and written back, and that was told. -/
theorem covers_of_written (hw : w.Sound m) {o new : Order} (ho : w.orders.find? o.number = some o)
    (hx : o.Onward new) (hs : new.Sound m) (hlt : new.lacking < o.lacking) (items : List String)
    {requests : List Item} (hrequests : ∀ i ∈ requests, m.isInstant i.name = .ok false)
    {v : World} (hv : v.orders = w.orders) (hl : Deeds.Idle l)
    (h : Reports o.number o.status new.status requests l' (v.written new) w') :
    Covers m o items (l ++ ⟨v, .save new, v.written new⟩ :: l') w w' := by
  have hvo : v.orders.find? new.number = some o := by rw [hx.number, hv]; exact ho
  rw [← hx.number] at h
  have hwritten : Duty m 2 (⟨v, .save new, v.written new⟩ :: l') v w' := by
    refine .of_written (hw.of_orders hv) hvo hx hs hrequests h fun x hx => ?_
    rcases h.said x hx with ⟨time, rfl⟩ | ⟨i, -, key, time, rfl⟩
    · rw [Envelope.weight_of_event (Envelope.event_statusUpdated ..)]
      exact Nat.zero_le _
    · exact (Envelope.weight_of_event (Envelope.event_itemRequested ..)).le
  refine ⟨(Duty.of_idle hw hv hl).append hwritten, fun n hn => ?_, fun _ => .inr ?_⟩
  · rw [h.orders, World.find?_written, hx.number, if_neg hn, hv]
  · have h₁ := World.lacking_written (w := v) hvo
    have h₂ : w'.lacking = (v.written new).lacking := by unfold World.lacking; rw [h.orders]
    have h₃ : v.lacking = w.lacking := by unfold World.lacking; rw [hv]
    omega

/-- **A pass over an order does what is expected.** -/
theorem surely_cover (hw : w.Sound c.menu) {o : Order} (ho : w.orders.find? o.number = some o)
    {items : List String} (hitems : ∀ i ∈ items, o.requests i = true) :
    WorkSurely (c.cover d o items) w fun l _ w' => Covers c.menu o items l w w' := by
  have hsound := (hw _ _ ho).1
  have hfill : WorkSurely (c.fill items o) w _ :=
    Flow.Draws.surely (draws_fill c items o) (ends_fill c hsound hitems)
  have hrequests := filled_stocked hsound hitems w.stock
  unfold cover
  refine WorkSurely.bind hfill ?_ (by rintro _ _ _ ⟨-, ⟨⟩, -⟩)
  rintro l₁ _ _ ⟨h₁, ⟨⟩, rfl⟩
  dsimp only
  by_cases hp : (filled c.menu items o w.stock).packed = []
  · -- nothing was packed, so nothing is written
    have hsame : (filled c.menu items o w.stock).order = o :=
      ((filled_follows items hsound w.stock).idle hp).1
    rw [hp, hsame]
    simp only [List.isEmpty_nil, Bool.not_true, Bool.false_eq_true, if_false, bne_self_eq_false]
    refine (surely_requests d o.number _ _).imp ?_
    rintro l₂ r w' ⟨horders, hkeep, hsaid⟩
    refine ⟨.of_keep hw horders (h₁.keep.append hkeep) fun x hx => ?_, fun n _ => ?_, fun h =>
      absurd hp h⟩
    · rcases Deeds.mem_said_append.1 hx with hx | hx
      · rw [h₁.silent] at hx
        cases hx
      · obtain ⟨i, hi, key, time, rfl⟩ := hsaid x hx
        have hevent := Envelope.event_itemRequested i key time o.number
        exact ⟨.itemRequested ho (hrequests i hi) key time, Envelope.isUpdate_of_event hevent,
          (Envelope.weight_of_event hevent).le⟩
    · rw [horders]
      rfl
  · rw [if_pos (by simpa using hp)]
    refine WorkSurely.bind (surely_saveOrder d _) ?_ ?_
    · rintro l₂ _ v (⟨-, -, f, ⟨⟩⟩ | ⟨l', u, hl', hu, rfl, rfl, -⟩)
      refine (surely_afterwards d o _ _ _).imp fun l₃ r w' h₃ => ?_
      have hcovers := covers_of_written (v := u) hw ho (filled_onward items hsound w.stock)
        (filled_follows items hsound w.stock).sound (filled_lacking items hsound w.stock hp)
        items hrequests hu.orders (h₁.append hl') h₃
      simpa only [List.append_assoc, List.singleton_append] using hcovers
    · rintro l₂ f v (⟨hl₂, horders, -⟩ | ⟨-, -, -, -, -, -, ⟨⟩⟩)
      refine ⟨.of_idle hw horders (h₁.append hl₂), fun n _ => ?_, fun _ => .inl ?_⟩
      · rw [horders]
        rfl
      · exact (h₁.append hl₂).silent

/-! ### The three uses -/

theorem surely_coverNew (hw : w.Sound c.menu) (n : OrderNumber) :
    WorkSurely (c.coverNew d n) w fun l _ w' => Duty c.menu 2 l w w' := by
  unfold coverNew
  refine WorkSurely.bind (surely_load d n) ?_ ?_
  · rintro l₁ o v ⟨h₁, hv, ho⟩
    have hfirst : Duty c.menu 2 l₁ w v := .of_idle hw hv.orders h₁
    obtain ⟨-, rfl⟩ := hw.of_orders hv.orders n o (ho o rfl)
    split
    · refine (surely_cover d hfirst.sound (ho o rfl) fun i hi => ?_).imp fun l₂ _ w' h₂ => ?_
      · exact Order.requests_iff_mem_names.2 hi
      · exact hfirst.append h₂.toDuty
    · refine workSurely_pure ?_
      rwa [List.append_nil]
  · rintro l f v ⟨hl, hv, -⟩
    exact .of_idle hw hv.orders hl

/-- To cover an order that misses an item of which there are units says something only after some
were packed for good. -/
theorem surely_cover_missed (hw : w.Sound c.menu) {item : String}
    (hitem : c.menu.isInstant item = .ok false) {o : Order} (ho : w.orders.find? o.number = some o)
    (hreq : o.requests item = true) (hshort : 0 < o.short item) (hstock : w.onHand item ≠ 0) :
    WorkSurely (c.cover d o [item]) w fun l _ w' => Restocking c.menu l w w' := by
  have hpacked := filled_one_ne_nil (hw _ _ ho).1 hitem hstock hshort
  refine (surely_cover d hw ho fun i hi => ?_).imp fun l _ w' h => ⟨h.toDuty, h.earned hpacked⟩
  rw [List.mem_singleton.1 hi]
  exact hreq

/-- A candidate that misses units of which there are some is served before those after it, and any
other is passed over. -/
theorem surely_serve (hw : w.Sound c.menu) {item : String}
    (hitem : c.menu.isInstant item = .ok false) {o : Order} (ho : w.orders.find? o.number = some o)
    (hstock : w.onHand item ≠ 0) {missing : Int}
    (hmissing : 0 < missing → o.requests item = true ∧ 0 < o.short item) {orders : List Order}
    (hrest : ∀ {v : World}, v.Sound c.menu →
      WorkSurely (c.handOut d item orders) v fun l _ w' => Restocking c.menu l v w') :
    WorkSurely (if missing ≤ 0 then c.handOut d item orders else do
      let outcome ← c.cover d o [item]
      return outcome :: (← c.handOut d item orders)) w fun l _ w' => Restocking c.menu l w w' := by
  split
  · exact hrest hw
  next hlt =>
  obtain ⟨hreq, hshort⟩ := hmissing (by omega)
  refine WorkSurely.bind (surely_cover_missed d hw hitem ho hreq hshort hstock) ?_
    fun l₁ f w₁ h₁ => h₁
  intro l₁ out w₁ h₁
  refine WorkSurely.bind (hrest h₁.sound) ?_ fun l₂ f w₂ h₂ => h₁.append h₂
  intro l₂ outs w₂ h₂
  refine workSurely_pure ?_
  rw [List.append_nil]
  exact h₁.append h₂

theorem surely_handOut (hw : w.Sound c.menu) {item : String}
    (hitem : c.menu.isInstant item = .ok false) (orders : List Order) :
    WorkSurely (c.handOut d item orders) w fun l _ w' => Restocking c.menu l w w' := by
  induction orders generalizing w with
  | nil => exact workSurely_pure (.of_idle hw rfl Deeds.idle_nil)
  | cons candidate r ih =>
    unfold handOut
    refine Flow.Surely.bind_lift (p := fun l q w' => Deeds.Idle l ∧ q = w.stock.onHand item ∧
      w' = w) (Flow.surely_ask fun q v hv => ?_) ?_
    · cases hv
      exact ⟨Deeds.idle_one rfl rfl rfl, rfl, rfl⟩
    rintro l₁ _ w ⟨h₁, rfl, rfl⟩
    split
    · refine workSurely_pure ?_
      rw [List.append_nil]
      exact .of_idle hw rfl h₁
    next hstock =>
    refine WorkSurely.bind (surely_load d candidate.number) ?_ ?_
    · rintro l₂ o v ⟨h₂, hv, ho⟩
      have hfirst : Restocking c.menu (l₁ ++ l₂) w v := .of_idle hw hv.orders (h₁.append h₂)
      obtain ⟨hsound, hnumber⟩ := hfirst.sound _ o (ho o rfl)
      have hstored : v.orders.find? o.number = some o := by rw [hnumber]; exact ho o rfl
      have hleft : v.onHand item ≠ 0 := by rw [hv.onHand]; exact hstock
      have hon (missing : Int) (h : 0 < missing → o.requests item = true ∧ 0 < o.short item) :=
        (surely_serve d hfirst.sound hitem hstored hleft h ih).imp fun l _ w' h₃ => by
          show Restocking c.menu (l₁ ++ (l₂ ++ l)) w w'
          rw [← List.append_assoc]
          exact hfirst.append h₃
      split
      · refine workSurely_bind_ofRefusal (fun missing hmissing => ?_) fun f _ => ?_
        · obtain ⟨hreq, rfl⟩ := Order.missing?_ok hmissing
          refine hon _ fun hpos => ⟨hreq, ?_⟩
          rw [hsound.missing_eq] at hpos
          omega
        · rw [List.append_nil]
          exact hfirst
      · exact hon 0 fun h => absurd h (lt_irrefl 0)
    · rintro l₂ f v ⟨h₂, hv, -⟩
      exact .of_idle hw hv.orders (h₁.append h₂)

/-- **Handing out an arrived item says something only after units were packed for good.** -/
theorem surely_restock (hw : w.Sound c.menu) (item : String) :
    WorkSurely (c.restock d item) w fun l _ w' => Restocking c.menu l w w' := by
  unfold restock
  have hnothing : Restocking c.menu [] w w := .of_idle hw rfl Deeds.idle_nil
  refine workSurely_bind_ofRefusal (fun b hb => ?_) fun _ _ => hnothing
  cases b with
  | true => exact workSurely_pure hnothing
  | false =>
    refine WorkSurely.bind (surely_searchOrders d _) ?_ ?_
    · rintro l₁ os v ⟨h₁, hv, -⟩
      have hfirst : Restocking c.menu l₁ w v := .of_idle hw hv.orders h₁
      exact (surely_handOut d hfirst.sound hb os).imp fun l₂ _ w' h₂ => hfirst.append h₂
    · rintro l f v ⟨hl, hv, -⟩
      exact .of_idle hw hv.orders hl

theorem surely_coverEach (hw : w.Sound c.menu) {orders : List Order}
    (hstored : ∀ o ∈ orders, w.orders.find? o.number = some o)
    (hnodup : (orders.map fun o => o.number).Nodup) :
    (c.coverEach d orders).Surely w fun l _ w' => Duty c.menu 2 l w w' := by
  induction orders generalizing w with
  | nil => exact Flow.surely_done (.of_idle hw rfl Deeds.idle_nil)
  | cons o r ih =>
    obtain ⟨ho, hrest⟩ := List.forall_mem_cons.1 hstored
    obtain ⟨hnot, hnodup⟩ := List.nodup_cons.1 hnodup
    have hsound := (hw _ _ ho).1
    unfold coverEach
    dsimp only
    split
    · exact ih hw hrest hnodup
    · refine Flow.Surely.bind (surely_cover d hw ho fun i hi => ?_) ?_
      · exact hsound.requests_of_short (hsound.mem_missing_names.1 hi)
      rintro l₁ res v h₁
      have hrest₁ : ∀ x ∈ r, v.orders.find? x.number = some x := fun x hx => by
        rw [h₁.others x.number fun heq => hnot (List.mem_map.2 ⟨x, hx, heq.symm⟩)]
        exact hrest x hx
      have hnext := @ih v h₁.sound hrest₁ hnodup
      cases res with
      | ok outcome =>
        refine Flow.Surely.bind hnext fun l₂ out w' h₂ => Flow.surely_done ?_
        rw [List.append_nil]
        exact h₁.toDuty.append h₂
      | error f =>
        refine Flow.Surely.bind hnext fun l₂ out w' h₂ => Flow.surely_done ?_
        rw [List.append_nil]
        exact h₁.toDuty.append h₂

/-- **A sweep does what is expected.** -/
theorem surely_sweep (hw : w.Orderly c.menu) :
    WorkSurely (c.sweep d) w fun l _ w' => Duty c.menu 2 l w w' := by
  unfold sweep
  refine WorkSurely.bind (surely_searchOrders d _) ?_ ?_
  · rintro l₁ os v ⟨h₁, hv, hos⟩
    have hfirst : Duty c.menu 2 l₁ w v := .of_idle hw.sound hv.orders h₁
    have hos := ScriptedStore.find_ok hw.frozen (hos os rfl)
    have hstored : ∀ o ∈ os, v.orders.find? o.number = some o := fun o ho => by
      rw [hos] at ho
      rw [hv.orders]
      exact hw.mem_values.1 (List.mem_filter.1 ho).1
    have hnodup : (os.map fun o => o.number).Nodup := by
      rw [hos]
      exact hw.numbers_nodup.sublist (List.filter_sublist.map _)
    refine Flow.Surely.bind_lift (surely_coverEach d hfirst.sound hstored hnodup) ?_
    rintro l₂ ⟨outs, fault⟩ w' h₂
    cases fault with
    | none =>
      refine workSurely_pure ?_
      rw [List.append_nil]
      exact hfirst.append h₂
    | some f =>
      refine workSurely_throw ?_
      rw [List.append_nil]
      exact hfirst.append h₂
  · rintro l f v ⟨hl, hv, -⟩
    exact .of_idle hw.sound hv.orders hl

end Coverage

end Takeaway
