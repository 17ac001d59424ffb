import Takeaway.Coverage
import Takeaway.Proofs.Flow.Each

/-!
The actions of covering orders. Main statement: of the stock, covering orders touches the counts of
items that are kept there only, and these it looks up and takes from, whichever of its three uses it
is put to.
-/

namespace Takeaway

/-- Whether an action looks at the stock or changes it. -/
def Action.isOfStock : Action → Bool
  | .onHand _ | .take _ _ | .add _ _ | .inventory => true
  | _ => false

/-! ### Calls and sending -/

section Sending

variable {P : Action → Prop}

theorem each_publish (p : RetryPolicy) {x : Envelope} (hsend : P (.send x))
    (hcount : P (.count .sendRetries 1)) : (publish p x).Each P := by
  unfold publish
  generalize p.limit - 1 = left
  generalize 1 = i
  induction left generalizing i with
  | zero =>
    refine Flow.Each.bind (Flow.each_ask hsend) fun r => ?_
    cases r <;> trivial
  | succ left ih =>
    refine Flow.Each.bind (Flow.each_ask hsend) fun r => ?_
    cases r with
    | ok a => trivial
    | error f =>
      dsimp only
      split
      · refine Flow.Each.bind (Flow.Each.bind (Flow.each_ask hcount) fun _ => ?_) fun _ => ih _
        exact fun _ => trivial
      · trivial

/-- A call of the store waits before it acts. -/
theorem each_call {α : Type} (c : Store.Call) {x : Flow (Except Outage α)} (hx : x.Each P)
    (hlag : P (.lag c)) (d : Deadline) :
    EachWork P (Work.within d (Work.ofStore do lagOf c; x)) := by
  refine EachWork.within (eachWork_mapError _ (Flow.Each.bind ?_ fun _ => hx)) d
  exact Flow.Each.bind (Flow.each_ask hlag) fun _ _ => trivial

end Sending

namespace Coverage

/-- A property of all actions but those on the stock, and of looking up and taking units of items
that are kept there. -/
structure Allows (m : Menu) (P : Action → Prop) : Prop where
  beside : ∀ a : Action, a.isOfStock = false → P a
  look : ∀ item, m.isInstant item = .ok false → P (.onHand item)
  take : ∀ item q, m.isInstant item = .ok false → P (.take item q)

namespace Allows

/-! ### Calls of the store -/

section Store

variable {m : Menu} {P : Action → Prop} (h : Allows m P) (d : Deadline)
include h

theorem saveOrder (o : Order) :
    EachWork P (Work.within d (Work.ofStore (Takeaway.saveOrder o))) :=
  each_call .upsert (Flow.each_ask (h.beside _ rfl)) (h.beside _ rfl) d

theorem searchOrders (f : OrderFilter) :
    EachWork P (Work.within d (Work.ofStore (Takeaway.searchOrders f))) :=
  each_call .find (Flow.each_ask (h.beside _ rfl)) (h.beside _ rfl) d

theorem load (n : OrderNumber) : EachWork P (load d n) := by
  refine EachWork.bind
    (each_call .get (Flow.each_ask (h.beside _ rfl)) (h.beside _ rfl) d) fun r => ?_
  cases r <;> trivial

end Store

variable {c : Coverage} {P : Action → Prop} (h : Allows c.menu P) (d : Deadline)
include h

/-! ### One order -/

theorem allocate {item : String} (hb : c.menu.isInstant item = .ok false) (needed : Quantity)
    (tries : Nat) : EachWork P (allocate item needed tries) := by
  induction tries with
  | zero => exact eachWork_pure _
  | succ tries ih =>
    unfold Coverage.allocate
    refine EachWork.bind (eachWork_lift (Flow.each_ask (h.look item hb))) fun onHand => ?_
    dsimp only
    split
    · exact eachWork_pure _
    · refine EachWork.bind (eachWork_lift (Flow.each_ask (h.take item _ hb))) fun r => ?_
      split
      · exact eachWork_pure _
      · exact ih
      · exact eachWork_throw _

theorem supply (item : String) (needed : Quantity) : EachWork P (c.supply item needed) := by
  unfold Coverage.supply
  refine eachWork_ofRefusal_bind fun b hb => ?_
  cases b with
  | false => exact h.allocate hb needed tries
  | true => exact eachWork_pure _

theorem fill (items : List String) (o : Order) : EachWork P (c.fill items o) := by
  induction items generalizing o with
  | nil => exact eachWork_pure _
  | cons item r ih =>
    unfold Coverage.fill
    refine EachWork.bind (eachWork_ofRefusal _) fun missing => ?_
    dsimp only
    split
    · exact ih o
    · refine EachWork.bind (h.supply item _) fun a => ?_
      exact EachWork.bind (ih _) fun _ => eachWork_pure _

theorem requestAll (n : OrderNumber) (items : List Item) :
    EachWork P (c.requestAll d n items) := by
  induction items with
  | nil => exact eachWork_pure _
  | cons i r ih =>
    refine EachWork.bind (EachWork.within ?_ d) fun _ => ih
    refine EachWork.bind (eachWork_lift (Flow.each_ask (h.beside _ rfl))) fun key => ?_
    refine EachWork.bind (eachWork_lift (Flow.each_ask (h.beside _ rfl))) fun time => ?_
    refine EachWork.bind (Flow.Each.bind
      (each_publish c.policy (h.beside _ rfl) (h.beside _ rfl)) fun _ => ?_) fun _ => ?_
    · trivial
    · exact EachWork.bind (eachWork_lift (Flow.each_ask (h.beside _ rfl))) fun _ => eachWork_pure _

theorem cover (o : Order) (items : List String) : EachWork P (c.cover d o items) := by
  unfold Coverage.cover
  refine EachWork.bind (h.fill items o) fun filled => ?_
  obtain ⟨new, packed, requests⟩ := filled
  have hend : ∀ b, EachWork P (do
      c.requestAll d o.number requests
      return (⟨o.number, packed, requests, new.status, b⟩ : Outcome)) := fun b =>
    EachWork.bind (h.requestAll d _ _) fun _ => eachWork_pure _
  have hrest : EachWork P (do
      let changed := new.status != o.status
      if changed then notify (.statusUpdated o.number new.status (← Flow.ask .clock))
      c.requestAll d o.number requests
      return (⟨o.number, packed, requests, new.status, changed⟩ : Outcome)) := by
    dsimp only
    split
    · refine EachWork.bind (eachWork_lift (Flow.each_ask (h.beside _ rfl))) fun time => ?_
      refine EachWork.bind (eachWork_lift fun _ => ?_) fun _ => hend _
      exact Flow.each_ask (h.beside _ rfl)
    · exact hend _
  dsimp only
  split
  · exact EachWork.bind (h.saveOrder d new) fun _ => hrest
  · exact hrest

/-! ### The three uses -/

theorem coverNew (n : OrderNumber) : EachWork P (c.coverNew d n) := by
  unfold Coverage.coverNew
  refine EachWork.bind (h.load d n) fun o => ?_
  split
  · exact h.cover d o _
  · exact eachWork_pure _

theorem handOut {item : String} (hb : c.menu.isInstant item = .ok false) (orders : List Order) :
    EachWork P (c.handOut d item orders) := by
  induction orders with
  | nil => exact eachWork_pure _
  | cons candidate r ih =>
    unfold Coverage.handOut
    refine EachWork.bind (eachWork_lift (Flow.each_ask (h.look item hb))) fun onHand => ?_
    split
    · exact eachWork_pure _
    · refine EachWork.bind (h.load d _) fun o => ?_
      have hon : ∀ missing : Int, EachWork P
          (if missing ≤ 0 then c.handOut d item r else do
            let outcome ← c.cover d o [item]
            return outcome :: (← c.handOut d item r)) := by
        intro missing
        split
        · exact ih
        · refine EachWork.bind (h.cover d o _) fun outcome => ?_
          exact EachWork.bind ih fun _ => eachWork_pure _
      split
      · exact EachWork.bind (eachWork_ofRefusal _) hon
      · exact EachWork.bind (eachWork_pure _) hon

theorem restock (item : String) : EachWork P (c.restock d item) := by
  unfold Coverage.restock
  refine eachWork_ofRefusal_bind fun b hb => ?_
  cases b with
  | true => exact eachWork_pure _
  | false => exact EachWork.bind (h.searchOrders d _) fun orders => h.handOut d hb orders

theorem coverEach (orders : List Order) : (c.coverEach d orders).Each P := by
  induction orders with
  | nil => trivial
  | cons o r ih =>
    unfold Coverage.coverEach
    dsimp only
    split
    · exact ih
    · refine Flow.Each.bind (h.cover d o _) fun res => ?_
      cases res with
      | ok outcome => exact Flow.Each.bind ih fun _ => trivial
      | error f => exact Flow.Each.bind ih fun _ => trivial

/-- **A sweep takes no other actions** either. -/
theorem sweep : EachWork P (c.sweep d) := by
  unfold Coverage.sweep
  refine EachWork.bind (h.searchOrders d _) fun orders => ?_
  refine EachWork.bind (eachWork_lift (h.coverEach d orders)) fun r => ?_
  obtain ⟨outcomes, _ | f⟩ := r
  · exact eachWork_pure _
  · exact eachWork_throw _

end Allows

end Coverage

end Takeaway
