import Takeaway.Proofs.Engine.Conduct
import Takeaway.Proofs.Sequence

/-!
Everything that is done in a sequential run. Main statements: whatever operations there are, orders
only go onward, each change of a status is told in one notice, and of no order is more than three
changes told.
-/

namespace Takeaway

open World (Aside Orderly)

/-! ### Trails -/

/-- The deeds of flows that begin at the same moment. -/
def Flow.trailEach {α : Type} : List (Flow α) → World → List Deed
  | [], _ => []
  | x :: xs, w => x.trail .inTurn w ++ trailEach xs { (x.run .inTurn w).2 with now := w.now }

/-- The deeds of some work done by itself. -/
def Work.trail {ε α : Type} (x : ExceptT ε Flow α) (w : World) : List Deed := x.run.trail .first w

theorem WorkSurely.of_first {ε α : Type} {x : ExceptT ε Flow α} {w : World}
    {p : List Deed → Except ε α → World → Prop} (h : WorkSurely x w p) :
    p (Work.trail x w) (Work.result x w) (Work.left x w) :=
  h _ _ _ (Flow.reaches_run .first x.run w)

/-- The deeds of an operation. What is switched is no deed of the engine, and notices that are
tried while time passes were handed over before. -/
def Operation.trail (e : Engine) (w : World) : Operation → List Deed
  | place customer items => Work.trail (e.place customer items) w
  | addInventory item q => Work.trail (e.addInventory item q) w
  | collect n => Work.trail (e.collect n) w
  | requestSweep => Work.trail e.requestSweep w
  | handle m => Flow.trailEach (e.router.flows m) w
  | switchStore _ | switchBroker _ | failSends _ | rest _ _ | settle => []

/-- To handle a message is to let one flow run. -/
theorem Operation.trail_handle (e : Engine) (w : World) (x : Envelope) :
    (Operation.handle x).trail e w = (e.response x).trail .inTurn w := by
  show Flow.trailEach (e.router.flows x) w = _
  rw [Engine.flows_eq]
  exact List.append_nil _

/-- The deeds of some operations from a given world. -/
def Engine.trailFrom (e : Engine) : World → List Operation → List Deed
  | _, [] => []
  | w, op :: ops => op.trail e w ++ e.trailFrom (op.run e w) ops

/-- The deeds of some operations from the start. -/
def Engine.trail (e : Engine) (ops : List Operation) : List Deed := e.trailFrom e.start ops

theorem Engine.after_append (e : Engine) (ops ops' : List Operation) :
    e.after (ops ++ ops') = e.runFrom (e.after ops) ops' := List.foldl_append

/-! ### Requests from outside -/

variable {w w' : World} {m : Menu} {e : Engine}

namespace Desk

/-- The number of a new order is not taken yet. -/
theorem surely_number (hw : w.Tidy) :
    WorkSurely (ofStore nextNumber) w fun l r w' =>
      Deeds.Idle l ∧ w'.orders = w.orders ∧ ∀ n, r = .ok n → w.orders.find? n = none := by
  refine Flow.Surely.bind (surely_call (a := .nextNumber) (f := fun r => r) .next
    fun v hv => surely_nextNumber hw hv) ?_
  rintro _ r v ⟨l₁, l₂, h₁, rfl, h₂, hv, hn⟩
  refine Flow.surely_done ?_
  rw [List.append_nil]
  exact ⟨h₁.append h₂, hv, fun n h => hn n (Except.of_mapError_ok h)⟩

/-- So nothing is written over. -/
theorem surely_write (hw : w.Sound m) {new : Order} (hs : new.Sound m)
    (hnew : w.orders.find? new.number = none) :
    WorkSurely (ofStore (saveOrder new)) w fun l r w' => Conduct m l w w' ∧
      (r = .ok () → ∃ x, w'.orders.find? new.number = some x) := by
  refine Flow.Surely.bind (surely_call (a := .save new) (f := fun r => r) .upsert
    fun v hv => surely_save hv new) ?_
  rintro _ r v ⟨l₁, l₂, h₁, rfl, ⟨h₂, hv, f, rfl⟩ | ⟨u, hu, rfl, rfl, rfl⟩⟩ <;>
    refine Flow.surely_done ?_ <;> rw [List.append_nil]
  · exact ⟨.of_idle hw hv.orders (h₁.append h₂), (by rintro ⟨⟩)⟩
  · have hlag : Conduct m l₁ w u := .of_idle hw hu.orders h₁
    refine ⟨hlag.append (.written_new hlag.sound ?_ hs), fun _ => ⟨new.touch u.time, ?_⟩⟩
    · rw [hu.orders]
      exact hnew
    · rw [World.find?_written]
      exact if_pos rfl

theorem surely_place (hw : w.Orderly m) (customer : CustomerId) (items : List Item) :
    WorkSurely (place m customer items) w fun l r w' => Conduct m l w w' ∧
      ∀ o, r = .ok o → ∃ x, w'.orders.find? o.number = some x := by
  unfold place
  refine WorkSurely.bind (p := fun l r w' => l = [] ∧ w' = w ∧
    (r = .ok () → check m items = .ok ())) (Flow.surely_done ⟨rfl, rfl, ?_⟩) ?_ ?_
  · exact fun h => Except.of_mapError_ok h
  · rintro _ _ w ⟨rfl, rfl, hcheck⟩
    obtain ⟨hne, hi, ht⟩ := check_ok.1 (hcheck rfl)
    refine WorkSurely.bind (surely_number hw.toTidy) ?_ ?_
    · rintro l₁ n v ⟨h₁, hv, hn⟩
      refine Flow.Surely.bind_lift surely_clock ?_
      rintro l₂ time v ⟨h₂, rfl⟩
      have hfirst : Conduct m (l₁ ++ l₂) w v := .of_idle hw.sound hv (h₁.append h₂)
      have hnew : v.orders.find? n = none := by rw [hv]; exact hn n rfl
      refine WorkSurely.bind (surely_write hfirst.sound
        (Order.Sound.place hne hi ht n customer time) hnew) ?_ ?_
      · rintro l₃ _ v₃ ⟨h₃, hstored⟩
        refine Flow.Surely.bind_lift (p := fun l _ w' => Deeds.Idle l ∧ w'.orders = v₃.orders)
          (Flow.surely_ask fun r u hr => ?_) ?_
        · cases hr
          exact ⟨Deeds.idle_one rfl rfl rfl, rfl⟩
        rintro l₄ _ v₄ ⟨h₄, hv₄⟩
        have hlast := hfirst.append (h₃.append (.of_idle h₃.sound hv₄ h₄))
        refine workSurely_pure ⟨?_, ?_⟩
        · simpa only [List.append_assoc, List.append_nil, List.nil_append] using hlast
        · rintro _ ⟨⟩
          rw [hv₄]
          exact hstored rfl
      · rintro l₃ f v₃ ⟨h₃, -⟩
        refine ⟨?_, (by rintro _ ⟨⟩)⟩
        simpa only [List.append_assoc, List.nil_append] using hfirst.append h₃
    · rintro l f v ⟨hl, hv, -⟩
      exact ⟨.of_idle hw.sound hv hl, (by rintro _ ⟨⟩)⟩
  · rintro _ f w ⟨rfl, rfl, -⟩
    exact ⟨.of_orders hw.sound rfl, (by rintro _ ⟨⟩)⟩

end Desk

/-- Calm work is of good conduct if it says nothing wrong. -/
theorem Flow.Calm.conduct {α : Type} {x : Flow α} {p : Envelope → Prop} (hx : x.Calm p)
    (hw : w.Sound m) (hp : ∀ e, p e → w.Vouches m e ∧ e.isUpdate = false) :
    x.Surely w fun l _ w' => Conduct m l w w' := by
  refine (hx.surely w).imp ?_
  rintro l a w' ⟨hstore, hkeep, hsaid⟩
  exact .of_keep hw (congrArg (·.store.orders) hstore) hkeep fun e he => hp e (hsaid e he)

/-- Telling of something at the present time. -/
theorem calmWork_tell {α : Type} {p : Envelope → Prop} (policy : RetryPolicy)
    {tell : Timestamp → Envelope} (h : ∀ time, p (tell time)) (a : α) :
    CalmWork p (do
      Work.publish policy (tell (← Flow.ask .clock))
      return a) :=
  CalmWork.bind (calmWork_lift (Flow.calm_ask trivial)) fun time =>
    CalmWork.bind (calmWork_publish policy (h time)) fun _ => calmWork_pure a

namespace Engine

theorem surely_place (hw : w.Orderly e.menu) (customer : CustomerId) (items : List Item) :
    WorkSurely (e.place customer items) w fun l _ w' => Conduct e.menu l w w' := by
  unfold place
  refine WorkSurely.bind (p := fun l r w' => Conduct e.menu l w w' ∧
    ∀ o, r = .ok o → ∃ x, w'.orders.find? o.number = some x) ?_ ?_ fun l f w' h => h.1
  · refine Flow.Surely.bind (Desk.surely_place hw customer items) fun l r w' h =>
      Flow.surely_done ?_
    rw [List.append_nil]
    exact ⟨h.1, fun o ho => h.2 o (Except.of_mapError_ok ho)⟩
  · rintro l₁ o v ⟨h₁, ho⟩
    obtain ⟨x, hx⟩ := ho o rfl
    have htell : CalmWork (ε := Fault) (fun y => ∃ time, y = .orderPlaced o.number time) (do
        Work.publish e.policy (.orderPlaced o.number (← Flow.ask .clock))
        return o) := calmWork_tell e.policy (fun time => ⟨time, rfl⟩) o
    refine (Flow.Calm.conduct htell h₁.sound ?_).imp fun l₂ _ w' h₂ => h₁.append h₂
    rintro y ⟨time, rfl⟩
    exact ⟨.orderPlaced hx time, Envelope.isUpdate_of_event (Envelope.event_orderPlaced ..)⟩

theorem surely_collect (hw : w.Sound m) (n : OrderNumber) :
    WorkSurely (e.collect n) w fun l _ w' => Conduct m l w w' := by
  have hrequire : WorkSurely (Work.ofDesk (Desk.require n)) w fun l r w' =>
      Conduct m l w w' ∧ ∀ o, r = .ok o → w'.orders.find? n = some o := by
    refine Flow.Surely.bind (p := fun l r w' => Conduct m l w w' ∧
      ∀ o, r = .ok o → w'.orders.find? n = some o) ?_ fun l r v h => Flow.surely_done ?_
    · refine WorkSurely.bind (p := fun l r w' => Conduct m l w w' ∧
        ∀ found, r = .ok found → found = w'.orders.find? n) ?_ ?_ ?_
      · refine Flow.Surely.bind (surely_call (a := .fetch n) (f := fun r => r) .get
          fun v hv => surely_fetch hv n) ?_
        rintro _ r v ⟨l₁, l₂, h₁, rfl, h₂, hv, hfound⟩
        refine Flow.surely_done ?_
        rw [List.append_nil]
        exact ⟨.of_idle hw hv.orders (h₁.append h₂), fun found h =>
          hfound found (Except.of_mapError_ok h)⟩
      · rintro l found v ⟨hl, hfound⟩
        have hfound := hfound found rfl
        cases found with
        | none =>
          refine workSurely_throw ⟨?_, (by rintro _ ⟨⟩)⟩
          rwa [List.append_nil]
        | some o =>
          refine workSurely_pure ⟨?_, ?_⟩
          · rwa [List.append_nil]
          · rintro _ ⟨⟩
            exact hfound.symm
      · rintro l f v ⟨hl, -⟩
        exact ⟨hl, (by rintro _ ⟨⟩)⟩
    · rw [List.append_nil]
      exact ⟨h.1, fun o ho => h.2 o (Except.of_mapError_ok ho)⟩
  unfold collect
  refine WorkSurely.bind hrequire ?_ fun l f v h => h.1
  rintro l₁ o v ⟨h₁, ho⟩
  split
  · refine workSurely_throw ?_
    rwa [List.append_nil]
  · next hpacked =>
    have htell : CalmWork (ε := Fault) (fun y => ∃ time, y = .orderCollected n time) (do
        Work.publish e.policy (.orderCollected n (← Flow.ask .clock))
        return o) := calmWork_tell e.policy (fun time => ⟨time, rfl⟩) o
    refine (Flow.Calm.conduct htell h₁.sound ?_).imp fun l₂ _ w' h₂ => h₁.append h₂
    rintro y ⟨time, rfl⟩
    exact ⟨.orderCollected (ho o rfl) (Bool.eq_false_iff.2 hpacked) time,
      Envelope.isUpdate_of_event (Envelope.event_orderCollected ..)⟩

theorem calmWork_addInventory (e : Engine) (item : String) (q : Quantity) :
    CalmWork (fun y => (∃ b, e.menu.isInstant item = .ok b) ∧ ∃ time, y = .itemAdded ⟨item, q⟩ time)
      (e.addInventory item q) := by
  unfold addInventory
  cases hb : e.menu.isInstant item with
  | error f => exact calmWork_throw _
  | ok b =>
    refine CalmWork.bind (x := Work.ofRefusal (.ok b)) trivial fun b' => ?_
    dsimp only
    split
    · exact calmWork_throw _
    split
    · exact calmWork_throw _
    · refine CalmWork.bind (calmWork_lift ((calm_addUnits item q).mono fun y hy => ?_)) fun _ =>
        calmWork_lift (Flow.calm_ask trivial)
      exact ⟨⟨b, rfl⟩, hy⟩

theorem surely_addInventory (hw : w.Sound e.menu) (item : String) (q : Quantity) :
    WorkSurely (e.addInventory item q) w fun l _ w' => Conduct e.menu l w w' := by
  refine Flow.Calm.conduct (calmWork_addInventory e item q) hw ?_
  rintro y ⟨hitem, time, rfl⟩
  exact ⟨.itemAdded hitem time, Envelope.isUpdate_of_event (Envelope.event_itemAdded ..)⟩

theorem surely_requestSweep (hw : w.Sound m) :
    WorkSurely e.requestSweep w fun l _ w' => Conduct m l w w' := by
  refine Flow.Calm.conduct (p := fun y => ∃ time, y = .sweepRequested time) ?_ hw ?_
  · exact CalmWork.bind (calmWork_lift (Flow.calm_ask trivial)) fun time =>
      calmWork_publish _ ⟨time, rfl⟩
  · rintro y ⟨time, rfl⟩
    exact ⟨.sweepRequested time, Envelope.isUpdate_of_event (Envelope.event_sweepRequested ..)⟩

end Engine

/-! ### Operations -/

theorem World.orderly_after (e : Engine) (ops : List Operation) :
    (e.after ops).Orderly e.menu := ⟨World.tidy_after e ops, World.sound_after e ops⟩

/-- **Every operation is of good conduct.** -/
theorem World.Orderly.conduct (hw : w.Orderly e.menu) (op : Operation) :
    Conduct e.menu (op.trail e w) w (op.run e w) := by
  cases op with
  | place customer items => exact (Engine.surely_place hw customer items).of_first
  | addInventory item q => exact (Engine.surely_addInventory hw.sound item q).of_first
  | collect n => exact (Engine.surely_collect hw.sound n).of_first
  | requestSweep => exact (Engine.surely_requestSweep hw.sound).of_first
  | handle x =>
    rw [Operation.trail_handle]
    have h := Engine.surely_response hw x _ _ _ (Flow.reaches_run .inTurn _ w)
    have hlast := Conduct.of_orders h.sound (e.aside_handled x w).orders
    have hall := h.toConduct.append hlast
    rwa [List.append_nil] at hall
  | switchStore answers => exact .of_orders hw.sound rfl
  | switchBroker isUp => exact .of_orders hw.sound rfl
  | failSends count => exact .of_orders hw.sound rfl
  | rest wait limit => exact .of_orders hw.sound (w.aside_await .first wait limit).orders
  | settle => exact .of_orders hw.sound (w.aside_passWhile _).orders

theorem World.Orderly.conduct_run (hw : w.Orderly e.menu) (ops : List Operation) :
    Conduct e.menu (e.trailFrom w ops) w (e.runFrom w ops) := by
  induction ops generalizing w with
  | nil => exact .of_orders hw.sound rfl
  | cons op ops ih =>
    have hop := hw.conduct op
    exact hop.append (ih ⟨hw.toTidy.operation op, hop.sound⟩)

/-! ### Main statement -/

/-- The notices that tell of a new status of the given order. -/
def Deeds.updatesOf (n : OrderNumber) (l : List Deed) : List Envelope :=
  (updates l).filter fun x => x.header? Envelope.orderHeader = some n.text

theorem Conduct.updatesOf_le {l : List Deed} (h : Conduct m l w w') (n : OrderNumber) :
    (Deeds.updatesOf n l).length + w.rankOf n ≤ w'.rankOf n := by
  have hlength : ∀ {cs : List (OrderNumber × Status)} {xs : List Envelope},
      List.Forall₂ Tells cs xs →
      (xs.filter fun x => x.header? Envelope.orderHeader = some n.text).length =
        cs.countP fun c => c.1 = n := by
    intro cs xs h
    rw [← List.countP_eq_length_filter]
    induction h with
    | nil => rfl
    | @cons c x cs xs hc _ ih =>
      obtain ⟨time, rfl⟩ := hc
      have hheader : (Envelope.statusUpdated c.1 c.2 time).header? Envelope.orderHeader =
          some c.1.text := Envelope.header?_withHeader_self _ _ _
      have hiff : c.1.text = n.text ↔ c.1 = n := ⟨OrderNumber.text_inj, congrArg _⟩
      rw [List.countP_cons, List.countP_cons, ih, hheader]
      simp only [Option.some.injEq, hiff]
  unfold Deeds.updatesOf
  rw [hlength h.told]
  exact h.climbs n

namespace Engine

/-- **Orders only go onward, and what becomes of them is told.** -/
theorem orders_onward (e : Engine) (ops ops' : List Operation) :
    (e.after ops).Onward (e.after (ops ++ ops')) ∧
      (∀ d ∈ e.trail ops, d.before.Onward d.after) ∧
      List.Forall₂ Tells (Deeds.changes (e.trail ops)) (Deeds.updates (e.trail ops)) ∧
      (∀ x ∈ Deeds.sent (e.trail ops), x.isUpdate = false) ∧
      ∀ n, (Deeds.updatesOf n (e.trail ops)).length ≤ 3 := by
  have hstart := (World.orderly_after e []).conduct_run ops
  refine ⟨?_, hstart.steps, hstart.told, hstart.apart, fun n => ?_⟩
  · rw [after_append]
    exact ((World.orderly_after e ops).conduct_run ops').onward
  · have h₁ := hstart.updatesOf_le n
    have h₂ := World.rankOf_le_three (e.runFrom (e.after []) ops) n
    exact (Nat.le_add_right _ _).trans (h₁.trans h₂)

end Engine

end Takeaway
