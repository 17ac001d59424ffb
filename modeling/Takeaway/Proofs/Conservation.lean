import Takeaway.Proofs.Engine.Run
import Takeaway.Proofs.Sequence

/-!
Units are neither lost nor made up. Main statement: in a sequential run, as long as no count was
capped, what is in stock of an item and what is packed of it make up what was added.
-/

namespace Takeaway

open World (Aside Pass Orderly)

/-! ### What operations add -/

/-- Units of an item that the kitchen adds to the stock when a message is handled: those in its
lines, if it is a request that is met. -/
def Engine.prepared (e : Engine) (m : Envelope) (w : World) (item : String) : Nat :=
  if (e.handle m w).1 = [⟨prepareKind, none⟩] then
    match m.decode Item.linesReader with
    | .ok lines => Item.unitsOf item lines
    | .error _ => 0
  else 0

/-- Units of an item that an operation adds to the stock: those of an accepted addition, and those
that the kitchen prepares. -/
def Operation.brought (e : Engine) (w : World) (item : String) : Operation → Nat
  | addInventory name q =>
    if (Work.result (e.addInventory name q) w).isOk then Item.unitsOf item [⟨name, q⟩] else 0
  | handle m => e.prepared m w item
  | _ => 0

namespace Engine

/-- Units of an item that some operations add to the stock, one after the other. -/
def broughtIn (e : Engine) (item : String) : World → List Operation → Nat
  | _, [] => 0
  | w, op :: r => op.brought e w item + e.broughtIn item (op.run e w) r

/-- No addition of an item passes the largest count. -/
def Uncapped (e : Engine) (item : String) : World → List Operation → Prop
  | _, [] => True
  | w, op :: r =>
    w.onHand item + op.brought e w item ≤ Quantity.largest ∧ e.Uncapped item (op.run e w) r

instance decidableUncapped (e : Engine) (item : String) :
    (w : World) → (ops : List Operation) → Decidable (e.Uncapped item w ops)
  | _, [] => inferInstanceAs (Decidable True)
  | w, op :: r =>
    have := e.decidableUncapped item (op.run e w) r
    inferInstanceAs (Decidable (_ ∧ _))

end Engine

/-! ### Single operations -/

variable {rank : World.Rank} {w w' : World} {e : Engine}

/-- Nothing is packed for an order that is new. -/
theorem World.packed_written {o : Order} (hnew : w.orders.find? o.number = none)
    (hnone : o.packed = []) (item : String) : (w.written o).packed item = w.packed item := by
  have htotal := Index.total_insert_new (fun o => o.packedOf item) (o.touch w.time) hnew
  have hzero : (o.touch w.time).packedOf item = 0 := by
    show Item.unitsOf item o.packed = 0
    rw [hnone]
    rfl
  show (w.orders.insert o.number _).total _ = _
  unfold packed
  omega

theorem Desk.ends_place (hw : w.Tidy) (menu : Menu) (customer : CustomerId) (items : List Item) :
    WorkEnds rank (place menu customer items) w fun _ w' =>
      w'.stock = w.stock ∧ ∀ item, w'.packed item = w.packed item := by
  unfold place
  refine WorkEnds.bind (p := fun _ w' => w' = w) rfl ?_ (by rintro _ w rfl; exact ⟨rfl, fun _ => rfl⟩)
  rintro _ w rfl
  have hnumber : WorkEnds rank (Desk.ofStore nextNumber) w fun r w' =>
      ((∃ f, r = .error f) ∧ w' = w) ∨
        r = .ok ⟨w.store.store.last + 1⟩ ∧ w' = w.numberGiven := by
    refine (workAtOnce_mapError _ ((atOnce_nextNumber hw.script).imp ?_)).ends rank
    intro r w' hr
    rcases w.nextNumber_cases with ⟨f, heq⟩ | heq <;> rw [heq] at hr <;>
      obtain ⟨rfl, rfl⟩ := Prod.mk.inj hr
    · exact .inl ⟨⟨_, rfl⟩, rfl⟩
    · exact .inr ⟨rfl, rfl⟩
  refine WorkEnds.bind hnumber ?_ ?_
  · rintro n w₁ (⟨⟨f, ⟨⟩⟩, -⟩ | ⟨⟨⟩, rfl⟩)
    have hfree : w.numberGiven.orders.find? ⟨w.store.store.last + 1⟩ = none := by
      cases ho : w.orders.find? ⟨w.store.store.last + 1⟩ with
      | none => exact ho
      | some o =>
        have hle : w.store.store.last + 1 ≤ w.store.store.last := (hw.numbered _ _ ho).2
        omega
    have hscript : w.numberGiven.store.script = [] := hw.script
    have hsame : ∀ item, w.numberGiven.packed item = w.packed item := fun _ => rfl
    have hstock : w.numberGiven.stock = w.stock := rfl
    generalize w.numberGiven = w₁ at hfree hscript hsame hstock ⊢
    refine Flow.Ends.bind_lift (p := fun _ w' => w' = w₁) (Flow.ends_ask rfl) ?_
    rintro time w₁ rfl
    have hsave : WorkEnds rank (Desk.ofStore (saveOrder (Order.place ⟨w.store.store.last + 1⟩
        customer items time))) w₁ fun _ w' =>
        w'.stock = w.stock ∧ ∀ item, w'.packed item = w.packed item := by
      refine (workAtOnce_mapError _ ((atOnce_saveOrder hscript _).imp ?_)).ends rank
      intro r w' hr
      rcases w₁.save_cases (Order.place ⟨w.store.store.last + 1⟩ customer items time) with
        ⟨f, heq⟩ | heq <;> rw [heq] at hr <;> obtain ⟨rfl, rfl⟩ := Prod.mk.inj hr
      · exact ⟨hstock, hsame⟩
      · exact ⟨hstock, fun item => (World.packed_written hfree rfl item).trans (hsame item)⟩
    refine WorkEnds.bind hsave ?_ fun _ _ h => h
    intro _ w₂ h₂
    exact Flow.Ends.bind_lift (p := fun _ w' => w'.stock = w.stock ∧
      ∀ item, w'.packed item = w.packed item) (Flow.ends_ask h₂) fun _ _ h => workEnds_pure h
  · rintro f w₁ (⟨-, rfl⟩ | ⟨⟨⟩, -⟩)
    exact ⟨rfl, fun _ => rfl⟩

namespace Engine

theorem ends_place (hw : w.Tidy) (customer : CustomerId) (items : List Item) :
    WorkEnds rank (e.place customer items) w fun _ w' =>
      w'.stock = w.stock ∧ ∀ item, w'.packed item = w.packed item := by
  unfold place
  refine WorkEnds.bind (p := fun _ w' => w'.stock = w.stock ∧
    ∀ item, w'.packed item = w.packed item) ?_ ?_ fun _ _ h => h
  · exact Flow.Ends.bind (Desk.ends_place hw e.menu customer items) fun _ _ h => h
  · rintro o w₁ ⟨hstock, hsame⟩
    refine (quietWork_tell e.policy _ o).ends.imp ?_
    rintro r w' ⟨new, h⟩
    refine ⟨h.stock.trans hstock, fun item => ?_⟩
    rw [← hsame]
    unfold World.packed World.orders
    rw [h.store]

theorem quietWork_collect (e : Engine) (n : OrderNumber) : QuietWork (e.collect n) := by
  have hfetch : QuietWork (Desk.get n) := by
    refine Flow.Quiet.bind (Flow.Quiet.bind ?_ fun _ => Flow.quiet_ask rfl) fun _ => trivial
    exact quiet_lagOf _
  have hrequire : QuietWork (Desk.require n) := by
    refine QuietWork.bind hfetch fun r => ?_
    cases r <;> trivial
  unfold collect
  refine QuietWork.bind (Flow.Quiet.bind hrequire fun _ => trivial) fun o => ?_
  dsimp only
  split
  · exact QuietWork.bind (quietWork_throw _) fun _ => quietWork_tell _ _ _
  · exact quietWork_tell _ _ _

theorem quietWork_requestSweep (e : Engine) : QuietWork e.requestSweep :=
  QuietWork.bind (quietWork_lift (Flow.quiet_ask rfl)) fun _ => quietWork_publish _ _

end Engine

/-! ### The account of an operation -/

theorem Supplied.conserves {lines : List Item} {new : Multiset Envelope}
    (h : Supplied lines new w w') {item : String}
    (hcap : w.onHand item + Item.unitsOf item lines ≤ Quantity.largest) :
    w'.onHand item + w'.packed item =
      w.onHand item + w.packed item + Item.unitsOf item lines := by
  have hstock := Stock.onHand_addAll lines w.stock item
  have hpacked : w'.packed item = w.packed item := by
    unfold World.packed World.orders
    rw [h.store]
  rw [hpacked]
  unfold World.onHand at hcap ⊢
  rw [h.stock, hstock]
  omega

/-- A handled message adds what its lines say if it is a request that the kitchen can meet, and
nothing otherwise. -/
theorem handled_conserves (hw : w.Orderly e.menu) (m : Envelope) {item : String}
    (hi : e.menu.isInstant item = .ok false)
    (hcap : w.onHand item + e.prepared m w item ≤ Quantity.largest) :
    (e.handled m w).onHand item + (e.handled m w).packed item =
      w.onHand item + w.packed item + e.prepared m w item := by
  obtain ⟨r, w₁, hresults, hends, haside⟩ := e.handle_results m w
    (Engine.ends_response fun j _ d => Engine.ends_work hw j d)
  unfold Engine.prepared at hcap ⊢
  rw [hresults] at hcap ⊢
  -- what was served was in stock before
  have hserved : ∀ {a v}, Pass e.menu a w v → Aside 0 v (e.handled m w) →
      (e.handled m w).onHand item + (e.handled m w).packed item =
        w.onHand item + w.packed item := fun hp ha =>
    (hp.trans_aside ha).served.conserves item hi
  rcases hends with ⟨x, hx, rfl, ha⟩ | ⟨j, hj, res, w₂, hres, ha, rfl⟩
  · have hfault := Engine.fault_of_job hx
    rw [if_neg fun heq => hfault (by rw [(List.cons.inj heq).1])]
    exact hserved (Pass.of_aside hw ha) haside
  · have ha := ha.trans_zero haside
    cases hres with
    | served new h hr =>
      have hno : ¬ [(⟨j.kind, (Ending.finished res).fault?⟩ : CommandResult)] =
          [⟨Engine.prepareKind, none⟩] := by
        intro heq
        obtain ⟨hkind, hnone⟩ := CommandResult.mk.inj (List.cons.inj heq).1
        obtain ⟨lines, rfl⟩ := Job.kind_eq_prepare hkind
        obtain ⟨⟨f, rfl⟩, -⟩ := hr lines rfl
        cases hnone
      rw [if_neg hno]
      exact hserved h ha
    | supplied lines new hj' hr hp h =>
      subst hj' hr
      rw [Engine.decode_of_job hj] at hcap ⊢
      exact (h.trans_aside ha).conserves hcap

theorem operation_conserves (hw : w.Orderly e.menu) (op : Operation) {item : String}
    (hi : e.menu.isInstant item = .ok false)
    (hcap : w.onHand item + op.brought e w item ≤ Quantity.largest) :
    (op.run e w).onHand item + (op.run e w).packed item =
      w.onHand item + w.packed item + op.brought e w item := by
  have hquiet : ∀ {a v}, Aside a w v →
      v.onHand item + v.packed item = w.onHand item + w.packed item := fun h =>
    (Pass.of_aside hw h).served.conserves item hi
  cases op with
  | place customer items =>
    obtain ⟨hstock, hpacked⟩ := (Engine.ends_place hw.toTidy customer items).of_first
    show World.onHand (Work.left _ w) item + World.packed (Work.left _ w) item = _ + 0
    rw [hpacked, Nat.add_zero]
    unfold World.onHand
    rw [hstock]
  | addInventory name q =>
    have hends : WorkEnds .first (e.addInventory name q) w _ := e.ends_addInventory name q
    unfold Operation.brought at hcap ⊢
    unfold Operation.run
    rcases hends.of_first with ⟨hno, heq⟩ | ⟨hyes, new, h⟩
    · simp [hno, heq]
    · simp only [hyes, if_true] at hcap ⊢
      exact h.conserves hcap
  | collect n =>
    obtain ⟨new, h⟩ := ((Engine.quietWork_collect e n).ends (w := w)).of_first
    exact hquiet h
  | requestSweep =>
    obtain ⟨new, h⟩ := ((Engine.quietWork_requestSweep e).ends (w := w)).of_first
    exact hquiet h
  | handle m => exact handled_conserves hw m hi hcap
  | switchStore answers => exact (Nat.add_zero _).symm
  | switchBroker isUp => exact (Nat.add_zero _).symm
  | failSends count => exact (Nat.add_zero _).symm
  | rest wait limit => exact hquiet (w.aside_await .first wait limit)
  | settle => exact hquiet (w.aside_passWhile _)

/-! ### Main statement -/

/-- Some operations in a row account for what they add. -/
theorem runFrom_conserves {g : Takings} (hb : w.Backed e.menu g) (ht : w.Tidy)
    (ops : List Operation) {item : String} (hi : e.menu.isInstant item = .ok false)
    (hcap : e.Uncapped item w ops) :
    (e.runFrom w ops).onHand item + (e.runFrom w ops).packed item =
      w.onHand item + w.packed item + e.broughtIn item w ops := by
  induction ops generalizing w g with
  | nil => rfl
  | cons op r ih =>
    obtain ⟨hone, hrest⟩ := hcap
    obtain ⟨g', hb'⟩ := hb.operation op
    have hstep := operation_conserves ⟨ht, hb.sound⟩ op hi hone
    have hrun := ih hb' (ht.operation op) hrest
    show (e.runFrom (op.run e w) r).onHand item + (e.runFrom (op.run e w) r).packed item =
      w.onHand item + w.packed item + (op.brought e w item + e.broughtIn item (op.run e w) r)
    omega

namespace Engine

/-- **Stock is conserved.** Whatever operations were done, and whatever failed on the way: as long
as no addition passed the largest count, the units of a stocked item that are on hand and those
that are packed, over all stored orders, are as many as were added. -/
theorem stock_conserved (e : Engine) (ops : List Operation) {item : String}
    (hi : e.menu.isInstant item = .ok false) (hcap : e.Uncapped item e.start ops) :
    (e.after ops).onHand item + (e.after ops).packed item = e.broughtIn item e.start ops := by
  have hstart : e.start.Backed e.menu 0 := ⟨(by rintro n o ⟨⟩), rfl⟩
  have hrun := runFrom_conserves hstart (World.tidy_start e) ops hi hcap
  have h₁ : e.start.onHand item = 0 := rfl
  have h₂ : e.start.packed item = 0 := rfl
  unfold after
  omega

/-- Fries that were added, asked of the kitchen and packed, with the broker switched off on the
way. -/
theorem stock_conserved_fries :
    let ops : List Operation := [.addInventory "fries" Quantity.one,
      .place ⟨7⟩ [⟨"fries", Quantity.one⟩], .switchBroker false,
      .handle (.orderPlaced ⟨1⟩ (Timestamp.ofMillis 0)),
      .handle (.itemRequested ⟨1⟩ ⟨"fries", Quantity.one⟩ (RequestKey.ofSerial 0)
        (Timestamp.ofMillis 0))]
    (Engine.after {} ops).onHand "fries" + (Engine.after {} ops).packed "fries" =
        Engine.broughtIn {} "fries" (Engine.start {}) ops ∧
      Engine.broughtIn {} "fries" (Engine.start {}) ops = 2 := by
  intro ops
  exact ⟨stock_conserved {} ops (by decide +kernel) (by decide +kernel), by decide +kernel⟩

end Engine

end Takeaway
