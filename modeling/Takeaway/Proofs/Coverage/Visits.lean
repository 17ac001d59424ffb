import Takeaway.Proofs.Coverage.Attempts
import Takeaway.Proofs.Coverage.InTurn
import Takeaway.Proofs.Coverage.Rounds

/-!
Passes over orders when sending turns out in any way. Main statements: an order is packed and
written back before anything is sent for it, so that orders and stock are the same however sending
turns out; a sweep visits all open orders, whichever requests fail, and reports the last failure;
and covering the orders one by one comes to the same visits.
-/

namespace Takeaway

open World (Orderly)

variable {w w' u : World} {m : Menu}

/-! ### Prompt calls -/

theorem World.Unmoved.orderly (h : w.Unmoved w') (hw : w.Orderly m) : w'.Orderly m where
  toTidy := h.tidy hw.toTidy
  sound n o ho := by
    rw [h.orders] at ho
    exact hw.sound n o ho

theorem Action.isSend_of_isStill {a : Action} (ha : a.isStill = true) : a.isSend = false := by
  cases a <;> first | rfl | cases ha

theorem Flow.Draws.prompt {α : Type} {x : Flow α} (hx : x.Draws) : x.Prompt w := by
  induction x generalizing w with
  | done a => trivial
  | act a next ih => exact ih _ (hx.2 _)
  | wait wt limit next ih => cases hx

/-- A flow that does not wait, and does not wait after that either, whatever it ends with. -/
theorem Flow.Prompt.bind_all {α β : Type} {x : Flow α} {f : α → Flow β} (hx : x.Prompt w)
    (hf : ∀ a v, (f a).Prompt v) : (x.bind f).Prompt w := hx.bind (hf _ _)

/-- A call of the store that does not wait does not wait under a deadline. -/
theorem prompt_within {α : Type} {x : Flow (Except Outage α)} (hx : x.Prompt w) (d : Deadline) :
    Flow.Prompt (Work.within d (Work.ofStore x)).run w := by
  have hcall : Flow.Prompt (Work.ofStore x).run w := hx.bind_all fun _ _ => trivial
  apply (hcall.before d.tick).bind_all
  intro r v
  cases r <;> trivial

/-- Still work that does not wait is carried through in one way. -/
theorem workAnyhow_of_still {ε α : Type} {x : ExceptT ε Flow α}
    {p : List Deed → Except ε α → World → Prop} (hx : Flow.Prompt x.run w)
    (heach : EachWork (fun a => a.isStill = true) x) (h : WorkDoes .first x w p) :
    WorkAnyhow x w fun s l r w' => s = [] ∧ p l r w' :=
  hx.anyhow (Flow.Each.imp heach fun _ => Action.isSend_of_isStill) h

namespace Coverage

variable {c : Coverage} {o : Order} {s s' : Replies} {l l' : List Deed}

theorem anyhow_saveOrder (hs : w.store.script = []) (ha : w.store.store.answers = true) (o : Order)
    (d : Deadline) :
    WorkAnyhow (Work.within d (Work.ofStore (saveOrder o))) w fun s l r w' =>
      s = [] ∧ Deeds.Tally [o] [] [] l ∧ r = .ok () ∧ w' = w.written o := by
  have heach : EachWork (fun a => a.isSend = false)
      (Work.within d (Work.ofStore (saveOrder o))) := by
    have hsave : (Flow.ask (.save o)).Each fun a => a.isSend = false := Flow.each_ask rfl
    exact each_call .upsert hsave rfl d
  exact Flow.Prompt.anyhow (prompt_within (atOnce_saveOrder hs o).prompt d) heach
    (does_saveOrder hs ha o d)

theorem anyhow_search (hw : w.Orderly m) (ha : w.store.store.answers = true) (f : OrderFilter)
    (d : Deadline) :
    WorkAnyhow (Work.within d (Work.ofStore (searchOrders f))) w fun s l r w' =>
      s = [] ∧ Deeds.Still l ∧ r = .ok (w.orders.values.filter f.accepts) ∧ w' = w := by
  have h := workAnyhow_of_still (prompt_within (atOnce_searchOrders hw.script f).prompt d)
    (each_search f d) ((ends_search d hw.toTidy f).still (each_search f d))
  refine h.imp ?_
  rintro s l r w' ⟨rfl, hl, rfl, hr⟩
  exact ⟨rfl, hl, (hr _).2 ⟨ha, rfl⟩, rfl⟩

theorem anyhow_load (hw : w.Orderly m) (n : OrderNumber) (d : Deadline) :
    WorkAnyhow (load d n) w fun s l r w' => s = [] ∧ Deeds.Still l ∧ w' = w ∧
      ∀ o, r = .ok o ↔ w.store.store.answers = true ∧ w.orders.find? n = some o := by
  have hprompt : Flow.Prompt (load d n).run w := by
    apply (prompt_within (atOnce_fetchOrder hw.script n).prompt d).bind_all
    intro r v
    rcases r with f | _ | o <;> trivial
  exact workAnyhow_of_still hprompt (each_load n d)
    ((ends_load d hw.script n).still (each_load n d))

/-! ### One order -/

/-- A pass over an order, with the items that the kitchen was asked for and the fault that ended it,
the answers to its attempts to send and the messages of these. -/
structure Visit extends Serving where
  sent : List Item
  fault : Option Fault
  answers : Replies
  messages : List Envelope

/-- A pass went like this, from the moment when the world was `u`. -/
structure Visit.Went (v : Visit) (d : Deadline) (saves : List Order) (u : World) (s : Replies)
    (l : List Deed) (r : Except Fault Outcome) (w' : World) : Prop where
  saved : Deeds.saved l = saves
  told : List.Forall₂ Tells v.news (Deeds.noted l)
  sent : Deeds.sent l = v.messages
  answers : s = v.answers
  attempted :
    Attempts d v.order.number v.filling.requests v.sent v.answers v.messages v.fault
  left : u.Unmoved w'
  result : r = unlessFault v.fault v.outcome

/-- What was written before counts. -/
theorem Visit.Went.after_saved {v : Visit} {d : Deadline} {before saves : List Order}
    {r : Except Fault Outcome} (h : v.Went d saves u s l' r w')
    (hl : Deeds.Tally before [] [] l) : v.Went d (before ++ saves) u s (l ++ l') r w' where
  saved := by rw [Deeds.saved_append, hl.saved, h.saved]
  told := by rw [Deeds.noted_append, hl.noted]; exact h.told
  sent := by rw [Deeds.sent_append, hl.sent]; exact h.sent
  answers := h.answers
  attempted := h.attempted
  left := h.left
  result := h.result

variable (d : Deadline) (o : Order) (f : Filling)

/-- The kitchen is asked after the new status was told. -/
theorem anyhow_requests {told : List Envelope} (hl : Deeds.Tally [] told [] l) (hu : u.Unmoved w)
    (htold : List.Forall₂ Tells (Serving.news ⟨o, f⟩) told) :
    WorkAnyhow (do
      c.requestAll d o.number f.requests
      return (⟨o.number, f.packed, f.requests, f.order.status,
        f.order.status != o.status⟩ : Outcome)) w
      fun s l' r w' => ∃ v : Visit, v.toServing = ⟨o, f⟩ ∧ v.Went d [] u s (l ++ l') r w' := by
  -- whatever comes of the requests, nothing else is done
  have hwent : ∀ (s : Replies) (l' : List Deed) (w' : World) (sent : List Item)
      (fault : Option Fault), Attempts d o.number f.requests sent s (Deeds.sent l') fault →
      Deeds.Tally [] [] (Deeds.sent l') l' → w.Unmoved w' →
      ∃ v : Visit, v.toServing = ⟨o, f⟩ ∧ v.Went d [] u s (l ++ l')
        (unlessFault fault (Serving.outcome ⟨o, f⟩)) w' := by
    intro s l' w' sent fault hattempts hl' hw'
    have hall := hl.append hl'
    simp only [List.append_nil, List.nil_append] at hall
    refine ⟨⟨⟨o, f⟩, sent, fault, s, Deeds.sent l'⟩, rfl, ?_⟩
    constructor
    case saved => exact hall.saved
    case told => rw [hall.noted]; exact htold
    case sent => exact hall.sent
    case answers => rfl
    case attempted => exact hattempts
    case left => exact hu.trans hw'
    case result => rfl
  refine WorkAnyhow.bind (anyhow_requestAll d o.number f.requests) ?_ ?_
  · rintro s l' _ w' ⟨sent, fault, hattempts, hl', hw', hr⟩
    apply workAnyhow_pure
    rw [List.append_nil, List.append_nil]
    cases fault with
    | none => exact hwent s l' w' sent none hattempts hl' hw'
    | some g => cases hr
  · rintro s l' g w' ⟨sent, fault, hattempts, hl', hw', hr⟩
    cases fault with
    | none => cases hr
    | some g' =>
      cases hr
      exact hwent s l' w' sent (some g) hattempts hl' hw'

/-- What follows when an order was written back: its status is told, if it is new, and the kitchen
is asked. -/
theorem anyhow_afterwards :
    WorkAnyhow (do
      let changed := f.order.status != o.status
      if changed then notify (.statusUpdated o.number f.order.status (← Flow.ask .clock))
      c.requestAll d o.number f.requests
      return (⟨o.number, f.packed, f.requests, f.order.status, changed⟩ : Outcome)) w
      fun s l r w' => ∃ v : Visit, v.toServing = ⟨o, f⟩ ∧ v.Went d [] w s l r w' := by
  dsimp only
  split
  · next hne =>
    have hclock : (Flow.ask .clock).Anyhow w fun s l _ w' => s = [] ∧ Deeds.Still l ∧ w' = w :=
      Flow.anyhow_ask rfl ⟨rfl, ⟨rfl, rfl, rfl⟩, rfl⟩
    refine Flow.Anyhow.bind_lift hclock ?_
    rintro _ l₁ time w ⟨rfl, h₁, rfl⟩
    have hnotify : (notify (.statusUpdated o.number f.order.status time)).Anyhow w
        fun s l _ w' => s = [] ∧
          Deeds.Tally [] [.statusUpdated o.number f.order.status time] [] l ∧ w.Unmoved w' := by
      refine Flow.anyhow_wait fun b v hv => ?_
      refine Flow.anyhow_ask rfl ⟨rfl, ⟨rfl, rfl, rfl⟩, hv.trans ?_⟩
      exact (World.aside_note v _).unmoved
    refine Flow.Anyhow.bind_lift hnotify ?_
    rintro _ l₂ _ v ⟨rfl, h₂, hv⟩
    simp only [← List.append_assoc]
    apply anyhow_requests d o f (h₁.append h₂) hv
    have hnews : Serving.news ⟨o, f⟩ = [(o.number, f.order.status)] :=
      if_neg (by simpa using hne)
    rw [hnews]
    exact .cons ⟨time, rfl⟩ .nil
  · next heq =>
    apply anyhow_requests d o f (l := []) Deeds.still_nil (World.Unmoved.refl w)
    have hnews : Serving.news ⟨o, f⟩ = [] := if_pos (by simpa using heq)
    rw [hnews]
    exact .nil

variable {o}

/-- **An order is packed and written back first**, however sending turns out after that. -/
theorem anyhow_cover (hw : w.Orderly c.menu) (ha : w.store.store.answers = true)
    (ho : w.orders.find? o.number = some o) {items : List String}
    (hitems : ∀ i ∈ items, o.requests i = true) :
    WorkAnyhow (c.cover d o items) w fun s l r w' => ∃ v : Visit,
      v.toServing = ⟨o, filled c.menu items o w.stock⟩ ∧
        v.Went d v.saves (w.covered c.menu items o) s l r w' := by
  have hsound := (hw.sound _ _ ho).1
  have hidle := (filled_follows items hsound w.stock).idle
  have hdraws := draws_fill c items o
  have hfill := workAnyhow_of_still (w := w) hdraws.prompt hdraws.each
    ((ends_fill c hsound hitems).still hdraws.each)
  unfold cover
  refine WorkAnyhow.bind hfill ?_ (by rintro _ _ _ _ ⟨-, -, ⟨⟩, -⟩)
  rintro _ l₁ _ _ ⟨rfl, h₁, ⟨⟩, rfl⟩
  dsimp only
  unfold World.covered
  dsimp only
  generalize filled c.menu items o w.stock = f at hidle ⊢
  -- what was written follows from what was packed
  have hon : ∀ {u : World} {before : List Order} {l₂ : List Deed},
      Deeds.Tally before [] [] l₂ → before = Serving.saves ⟨o, f⟩ →
      WorkAnyhow (do
        let changed := f.order.status != o.status
        if changed then notify (.statusUpdated o.number f.order.status (← Flow.ask .clock))
        c.requestAll d o.number f.requests
        return (⟨o.number, f.packed, f.requests, f.order.status, changed⟩ : Outcome)) u
        fun s l₃ r w' => ∃ v : Visit, v.toServing = ⟨o, f⟩ ∧
          v.Went d v.saves u s (l₂ ++ l₃) r w' := by
    intro u before l₂ hl₂ hbefore
    refine (anyhow_afterwards d o f).imp ?_
    rintro s l₃ r w' ⟨v, hv, hwent⟩
    have hall := hwent.after_saved hl₂
    rw [List.append_nil, hbefore, ← hv] at hall
    exact ⟨v, hv, hall⟩
  by_cases hp : f.packed = []
  · -- nothing is written when nothing was packed
    obtain ⟨-, hstock⟩ := hidle hp
    have hnone : (!f.packed.isEmpty) ≠ true := by simp [hp]
    rw [if_neg hnone, if_pos hp, hstock]
    exact hon h₁ (if_pos hp).symm
  · have hne : (!f.packed.isEmpty) = true := by simpa using hp
    rw [if_pos hne, if_neg hp]
    refine WorkAnyhow.bind
      (anyhow_saveOrder (w := { w with stock := f.stock }) hw.script ha f.order d) ?_
      (by rintro _ _ _ _ ⟨-, -, ⟨⟩, -⟩)
    rintro _ l₂ _ v ⟨rfl, h₂, -, rfl⟩
    simp only [← List.append_assoc]
    exact hon (h₁.append h₂) (if_neg hp).symm

end Coverage

end Takeaway
