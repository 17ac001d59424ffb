import Takeaway.Proofs.Coverage.Requests
import Takeaway.Proofs.World.Logs

/-!
A pass over an order, deed by deed. Main statement: the order is written back if anything was
packed, its new status is told if it has one, and the kitchen is asked for the rest up to the first
failure; what the pass reports is what it did.
-/

namespace Takeaway

open World (Aside Orderly)

variable {rank : World.Rank} {w w' v : World}

/-! ### Calls -/

/-- What only looks at the stock and takes units writes nothing and says nothing. -/
theorem Flow.Draws.each {α : Type} {x : Flow α} (hx : x.Draws) :
    x.Each fun a => a.isStill = true := by
  induction x with
  | done a => trivial
  | act a next ih =>
    refine ⟨?_, fun r => ih r (hx.2 r)⟩
    have ha := hx.1
    cases a <;> first | rfl | cases ha
  | wait wt limit next ih => cases hx

theorem each_load (n : OrderNumber) (d : Deadline) :
    EachWork (fun a => a.isStill = true) (Coverage.load d n) := by
  have hfetch : (Flow.ask (.fetch n)).Each fun a => a.isStill = true := Flow.each_ask rfl
  refine EachWork.bind (each_call .get hfetch rfl d) fun r => ?_
  cases r <;> trivial

theorem does_saveOrder (hs : w.store.script = []) (ha : w.store.store.answers = true) (o : Order)
    (d : Deadline) :
    WorkDoes rank (Work.within d (Work.ofStore (saveOrder o))) w fun l r w' =>
      Deeds.Tally [o] [] [] l ∧ r = .ok () ∧ w' = w.written o := by
  have honce : WorkAtOnce (Work.ofStore (saveOrder o)) w fun r w' =>
      r = .ok () ∧ w' = w.written o := by
    refine workAtOnce_mapError _ ((atOnce_saveOrder_written hs ha o).imp ?_)
    rintro _ _ ⟨rfl, rfl⟩
    exact ⟨rfl, rfl⟩
  have hdeeds : WorkDoes rank (Work.ofStore (saveOrder o)) w fun l _ _ =>
      Deeds.Tally [o] [] [] l := by
    refine Flow.Does.bind (p := fun l _ _ => Deeds.Tally [o] [] [] l) ?_ fun l r w' hl => ?_
    · refine Flow.Does.bind (p := fun l _ _ => Deeds.Still l) ?_ fun l r w' hl => ?_
      · refine (Flow.Each.still ?_).does
        exact Flow.Each.bind (Flow.each_ask rfl) fun _ _ => trivial
      · exact Flow.does_ask (hl.still_append ⟨rfl, rfl, rfl⟩)
    · refine Flow.does_done ?_
      rwa [List.append_nil]
  exact WorkDoes.within (hdeeds.and (WorkEnds.does (honce.ends rank))) honce.prompt d

theorem does_notify (x : Envelope) :
    (notify x).Does rank w fun l _ w' => Deeds.Tally [] [x] [] l ∧ Aside {x} w w' :=
  ⟨⟨rfl, rfl, rfl⟩, ends_notify x⟩

namespace Coverage

variable {c : Coverage} (d : Deadline)

/-! ### One order -/

/-- What a pass does and comes to that packed an order like this, from the moment when the world was
`v`: these orders are written, the new status is told if there is one, the kitchen is asked. -/
structure Covering (o : Order) (f : Filling) (saves : List Order) (v : World) (l : List Deed)
    (r : Except Fault Outcome) (w' : World) : Prop where
  saved : Deeds.saved l = saves
  told : List.Forall₂ Tells
    (if f.order.status = o.status then [] else [(o.number, f.order.status)]) (Deeds.noted l)
  tried : ∃ is, is <+: f.requests ∧ Tried (is.map fun i => (o.number, i)) (Deeds.sent l) ∧
    ((∃ out, r = .ok out) → is = f.requests) ∧ (f.requests ≠ [] → is ≠ [])
  settled : f.requests = [] → ∃ out, r = .ok out
  left : ∃ new, Aside new v w'
  outcome : ∀ out, r = .ok out →
    out = ⟨o.number, f.packed, f.requests, f.order.status, f.order.status != o.status⟩
  flowing : v.Flowing → (∃ out, r = .ok out) ∧
    List.Forall₂ Asks (f.requests.map fun i => (o.number, i)) (Deeds.sent l)

namespace Covering

variable {o : Order} {f : Filling} {saves : List Order} {l l' : List Deed}
  {r : Except Fault Outcome}

/-- What was written before counts. -/
theorem after_saved {before : List Order} (h : Covering o f saves v l' r w')
    (hl : Deeds.Tally before [] [] l) : Covering o f (before ++ saves) v (l ++ l') r w' where
  saved := by rw [Deeds.saved_append, hl.saved, h.saved]
  told := by rw [Deeds.noted_append, hl.noted]; exact h.told
  tried := by rw [Deeds.sent_append, hl.sent]; exact h.tried
  settled := h.settled
  left := h.left
  outcome := h.outcome
  flowing := by rw [Deeds.sent_append, hl.sent]; exact h.flowing

theorem after_still (h : Covering o f saves v l' r w') (hl : Deeds.Still l) :
    Covering o f saves v (l ++ l') r w' := h.after_saved hl

end Covering

variable (o : Order) (f : Filling)

/-- The kitchen is asked after the new status was told. -/
theorem does_requests {l : List Deed} {told : List Envelope} {new : Multiset Envelope}
    (hl : Deeds.Tally [] told [] l) (hv : Aside new w v)
    (htold : List.Forall₂ Tells
      (if f.order.status = o.status then [] else [(o.number, f.order.status)]) told) :
    WorkDoes rank (do
      c.requestAll d o.number f.requests
      return (⟨o.number, f.packed, f.requests, f.order.status,
        f.order.status != o.status⟩ : Outcome)) v
      fun l' r w' => Covering o f [] w (l ++ l') r w' := by
  have hcovering : ∀ (l' : List Deed) (r : Except Fault Unit) (r' : Except Fault Outcome)
      (w' : World), Asking o.number f.requests l' r v w' →
      r' = (r.map fun _ => ⟨o.number, f.packed, f.requests, f.order.status,
        f.order.status != o.status⟩) → Covering o f [] w (l ++ l') r' w' := by
    rintro l' r _ w' h rfl
    have hall := hl.append h.tally
    obtain ⟨is, hprefix, htried, hok, hne⟩ := h.tried
    obtain ⟨b, hb⟩ := h.left
    constructor
    case saved => exact hall.saved
    case told => rw [hall.noted, List.append_nil]; exact htold
    case tried =>
      rw [hall.sent]
      refine ⟨is, hprefix, htried, ?_, hne⟩
      rintro ⟨out, hout⟩
      cases r with
      | ok => exact hok rfl
      | error e => cases hout
    case settled =>
      intro hr
      rw [h.settled hr]
      exact ⟨_, rfl⟩
    case left => exact ⟨_, hv.trans hb⟩
    case outcome =>
      cases r with
      | ok => rintro _ ⟨⟩; rfl
      | error e => rintro _ ⟨⟩
    case flowing =>
      intro hw
      obtain ⟨rfl, hasks⟩ := h.flowing (hv.flowing hw)
      rw [hall.sent]
      exact ⟨⟨_, rfl⟩, hasks⟩
  refine WorkDoes.bind (does_requestAll d o.number f.requests) ?_ ?_
  · rintro l' _ w' h
    refine workDoes_pure ?_
    rw [List.append_nil]
    exact hcovering l' _ _ w' h rfl
  · exact fun l' e w' h => hcovering l' _ _ w' h rfl

/-- What follows when an order was written back: its status is told, if it is new, and the kitchen
is asked. -/
theorem does_afterwards :
    WorkDoes rank (do
      let changed := f.order.status != o.status
      if changed then notify (.statusUpdated o.number f.order.status (← Flow.ask .clock))
      c.requestAll d o.number f.requests
      return (⟨o.number, f.packed, f.requests, f.order.status, changed⟩ : Outcome)) w
      fun l r w' => Covering o f [] w l r w' := by
  dsimp only
  split
  · next hne =>
    refine Flow.Does.bind_lift (p := fun l _ w' => Deeds.Still l ∧ w' = w)
      (Flow.does_ask ⟨⟨rfl, rfl, rfl⟩, rfl⟩) ?_
    rintro l₁ time w ⟨h₁, rfl⟩
    refine Flow.Does.bind_lift (does_notify _) ?_
    rintro l₂ _ v ⟨h₂, hv⟩
    simp only [← List.append_assoc]
    refine does_requests d o f (h₁.append h₂) hv ?_
    rw [if_neg (by simpa using hne)]
    exact .cons ⟨time, rfl⟩ .nil
  · next heq =>
    have hsame : f.order.status = o.status := by simpa using heq
    refine does_requests d o f (l := []) Deeds.still_nil (Aside.refl w) ?_
    rw [if_pos hsame]
    exact .nil

variable {o}

/-- **A pass over an order, deed by deed.** -/
theorem does_cover (hw : w.Orderly c.menu) (ha : w.store.store.answers = true)
    (ho : w.orders.find? o.number = some o) {items : List String}
    (hitems : ∀ i ∈ items, o.requests i = true) :
    WorkDoes rank (c.cover d o items) w fun l r w' =>
      Covering o (filled c.menu items o w.stock)
        (if (filled c.menu items o w.stock).packed = [] then []
          else [(filled c.menu items o w.stock).order])
        (w.covered c.menu items o) l r w' := by
  have hsound := (hw.sound _ _ ho).1
  have hidle := (filled_follows items hsound w.stock).idle
  unfold cover
  refine WorkDoes.bind ((ends_fill c hsound hitems).still (draws_fill c items o).each) ?_
    (by rintro _ _ _ ⟨-, ⟨⟩, -⟩)
  rintro l₁ _ _ ⟨h₁, ⟨⟩, rfl⟩
  dsimp only
  unfold World.covered
  dsimp only
  generalize filled c.menu items o w.stock = f at hidle ⊢
  by_cases hp : f.packed = []
  · -- nothing is written when nothing was packed
    obtain ⟨-, hstock⟩ := hidle hp
    have hnone : (!f.packed.isEmpty) ≠ true := by simp [hp]
    rw [if_neg hnone, if_pos hp, if_pos hp, hstock]
    exact (does_afterwards d o f).imp fun l₃ r w' h₃ => h₃.after_still h₁
  · have hne : (!f.packed.isEmpty) = true := by simpa using hp
    rw [if_pos hne, if_neg hp, if_neg hp]
    refine WorkDoes.bind
      (does_saveOrder (w := { w with stock := f.stock }) hw.script ha f.order d) ?_
      (by rintro _ _ _ ⟨-, ⟨⟩, -⟩)
    rintro l₂ _ v ⟨h₂, -, rfl⟩
    refine (does_afterwards d o f).imp fun l₃ r w' h₃ => ?_
    rw [← List.append_assoc]
    exact h₃.after_saved (h₁.append h₂)

/-- **A new order is covered with all that it asks for, unless it is closed.** -/
theorem does_coverNew (hw : w.Orderly c.menu) (ha : w.store.store.answers = true) {n : OrderNumber}
    (ho : w.orders.find? n = some o) :
    WorkDoes rank (c.coverNew d n) w fun l r w' =>
      (o.status.isOpen = false →
        Deeds.Still l ∧ r = .ok ⟨n, [], [], o.status, false⟩ ∧ w' = w) ∧
      (o.status.isOpen = true → Covering o (filled c.menu o.names o w.stock)
        (if (filled c.menu o.names o w.stock).packed = [] then []
          else [(filled c.menu o.names o w.stock).order])
        (w.covered c.menu o.names o) l r w') := by
  unfold coverNew
  refine WorkDoes.bind ((ends_load d hw.script n).still (each_load n d)) ?_ ?_
  · rintro l₁ o' w ⟨h₁, rfl, hload⟩
    obtain ⟨-, ho'⟩ := (hload o').1 rfl
    obtain rfl := Option.some.inj (ho.symm.trans ho')
    obtain ⟨-, rfl⟩ := hw.sound n o ho
    split
    · next hopen =>
      refine (does_cover d hw ha ho fun i hi => ?_).imp fun l₂ r w' h₂ => ?_
      · exact Order.requests_iff_mem_names.2 hi
      · refine ⟨fun hclosed => ?_, fun _ => h₂.after_still h₁⟩
        rw [hopen] at hclosed
        cases hclosed
    · next hclosed =>
      refine workDoes_pure ⟨fun _ => ?_, fun hopen => absurd hopen hclosed⟩
      rw [List.append_nil]
      exact ⟨h₁, rfl, rfl⟩
  · rintro l f w ⟨-, rfl, hload⟩
    cases (hload o).2 ⟨ha, ho⟩

end Coverage

end Takeaway
