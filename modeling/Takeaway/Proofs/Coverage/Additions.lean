import Takeaway.Proofs.Coverage.Actions

/-!
Additions to the stock. Main statement: covering orders adds nothing, whichever of its three uses
it is put to.
-/

namespace Takeaway

variable {Q : String → Prop}

/-! ### Additions -/

/-- An action that adds units of items with the property only. -/
def Action.AddsOnly (Q : String → Prop) : Action → Prop
  | .add item _ => Q item
  | _ => True

theorem Action.AddsOnly.imp {a : Action} {R : String → Prop} (h : a.AddsOnly R)
    (hR : ∀ item, R item → Q item) : a.AddsOnly Q := by
  cases a with
  | add item q => exact hR item h
  | _ => trivial

theorem Flow.Quiet.addsOnly {α : Type} {x : Flow α} (hx : x.Quiet) :
    x.Each (Action.AddsOnly Q) := by
  refine hx.each fun a ha => ?_
  cases a with
  | add item q => cases ha
  | _ => trivial

theorem QuietWork.addsOnly {ε α : Type} {x : ExceptT ε Flow α} (hx : QuietWork x) :
    EachWork (Action.AddsOnly Q) x := Flow.Quiet.addsOnly hx

theorem addsOnly_addUnits {item : String} (hitem : Q item) (q : Quantity) :
    (addUnits item q).Each (Action.AddsOnly Q) := by
  refine Flow.Each.bind (Flow.each_ask hitem) fun b => ?_
  cases b
  · trivial
  · exact Flow.Quiet.addsOnly (Flow.Quiet.bind (Flow.quiet_ask rfl) fun _ => quiet_notify _)

theorem addsOnly_saveOrder (o : Order) : (saveOrder o).Each (Action.AddsOnly Q) :=
  Flow.Each.bind (quiet_lagOf .upsert).addsOnly fun _ => Flow.each_ask trivial

theorem addsOnly_ofStore_saveOrder (o : Order) (d : Deadline) :
    EachWork (Action.AddsOnly Q) (Work.within d (Work.ofStore (saveOrder o))) :=
  (eachWork_mapError _ (addsOnly_saveOrder o)).within d

/-! ### Covering orders adds nothing -/

namespace Coverage

/-- **Covering orders adds nothing**: none of its actions is an addition. -/
theorem allows_addsOnly (m : Menu) : Allows m (Action.AddsOnly Q) where
  beside a _ := by cases a <;> trivial
  look _ _ := trivial
  take _ _ _ := trivial

variable {c : Coverage} (d : Deadline)

theorem addsOnly_load (n : OrderNumber) : EachWork (Action.AddsOnly Q) (load d n) :=
  (allows_addsOnly ∅).load d n

theorem addsOnly_coverNew (n : OrderNumber) : EachWork (Action.AddsOnly Q) (c.coverNew d n) :=
  (allows_addsOnly c.menu).coverNew d n

theorem addsOnly_restock (item : String) : EachWork (Action.AddsOnly Q) (c.restock d item) :=
  (allows_addsOnly c.menu).restock d item

theorem addsOnly_sweep : EachWork (Action.AddsOnly Q) (c.sweep d) :=
  (allows_addsOnly c.menu).sweep d

end Coverage

end Takeaway
