import Takeaway.Proofs.Coverage.Handing
import Takeaway.Proofs.Coverage.Tour
import Takeaway.Proofs.History

/-!
What becomes of orders and stock when sending fails. Main statement: covering a new order, handing
out an item and sweeping all leave the same orders and the same stock, however the attempts to send
are answered, whatever the policy and the deadline; and a sweep visits all open orders in any case,
asks the kitchen for each up to the first request of that order that fails, and reports the last
failure, if there is any.
-/

namespace Takeaway

open World (Orderly)

variable {w w₁ w₂ w' : World} {m : Menu} {item : String}

/-! ### The last failure -/

/-- The last of several results is that of the last element that has any. -/
theorem List.getLast?_filterMap_eq_some {α β : Type} {f : α → Option β} {l : List α} {b : β} :
    (l.filterMap f).getLast? = some b ↔
      ∃ front a behind, l = front ++ a :: behind ∧ f a = some b ∧ ∀ x ∈ behind, f x = none := by
  rw [List.getLast?_filterMap, List.findSome?_eq_some_iff]
  constructor
  · rintro ⟨before, a, after, hl, ha, hnone⟩
    refine ⟨after.reverse, a, before.reverse, ?_, ha, by simpa using hnone⟩
    simpa using congrArg List.reverse hl
  · rintro ⟨front, a, behind, rfl, ha, hnone⟩
    exact ⟨behind.reverse, a, front.reverse, by simp, ha, by simpa using hnone⟩

namespace Coverage

variable {d : Deadline} {vs : List Visit} {s s' : Replies} {l l' : List Deed}
  {r : Except Fault (List Outcome)}

/-! ### Sending makes no difference -/

/-- Some work leaves the same orders and the same stock, in whichever two ways it is carried through
where these are what they are here; the policies, the deadlines, the broker and the clock may be any
others. -/
def Indifferent {α : Type} (x : RetryPolicy → Deadline → Work α) (w : World) : Prop :=
  ∀ p d u s l r w₁ p' d' u' s' l' r' w₂, w.Unmoved u → w.Unmoved u' →
    Flow.Carried (x p d).run u s l r w₁ → Flow.Carried (x p' d').run u' s' l' r' w₂ →
      w₁.Matches w₂

theorem indifferent_of {α : Type} {x : RetryPolicy → Deadline → Work α} {q : World → Prop}
    (hq : ∀ w₁ w₂, q w₁ → q w₂ → w₁.Matches w₂)
    (h : ∀ p d u, w.Unmoved u → WorkAnyhow (x p d) u fun _ _ _ w' => q w') :
    Indifferent x w := by
  intro p d u s l r w₁ p' d' u' s' l' r' w₂ hu hu' h₁ h₂
  exact hq w₁ w₂ (h p d u hu _ _ _ _ h₁) (h p' d' u' hu' _ _ _ _ h₂)

section Uses

variable (hw : w.Orderly m) (ha : w.store.store.answers = true)
include hw ha

theorem indifferent_coverNew (n : OrderNumber) :
    Indifferent (fun p d => coverNew ⟨m, p⟩ d n) w := by
  apply indifferent_of (q := fun w' => ∃ d vs s l, Visited m d (w.waitingAt n) w vs s l w')
  · rintro w₁ w₂ ⟨d₁, vs₁, s₁, l₁, h₁⟩ ⟨d₂, vs₂, s₂, l₂, h₂⟩
    exact h₁.same h₂
  · intro p d u hu
    refine (anyhow_coverNew (c := ⟨m, p⟩) (d := fun _ => d) (hu.orderly hw) (hu.answers ha) n).imp ?_
    rintro s l r w' ⟨vs, hvs, -⟩
    rw [hu.waitingAt] at hvs
    exact ⟨_, vs, s, l, hvs.of_unmoved hu⟩

theorem indifferent_restock (item : String) :
    Indifferent (fun p d => restock ⟨m, p⟩ d item) w := by
  apply indifferent_of (q := fun w' =>
    if m.isInstant item = .ok false then Handed item w w' else w.Unmoved w')
  · intro w₁ w₂ h₁ h₂
    by_cases hitem : m.isInstant item = .ok false
    · rw [if_pos hitem] at h₁ h₂
      exact h₁.logs.matches h₂.logs (h₂.lost.unique h₁.lost)
    · rw [if_neg hitem] at h₁ h₂
      exact (World.Logs.of_orders h₁.orders).matches (World.Logs.of_orders h₂.orders)
        (h₂.stock.trans h₁.stock.symm)
  · intro p d u hu
    refine (anyhow_restock (c := ⟨m, p⟩) d (hu.orderly hw) (hu.answers ha) item).imp ?_
    intro s l r w' h
    dsimp only at h
    by_cases hitem : m.isInstant item = .ok false
    · rw [if_pos hitem] at h ⊢
      exact h.of_unmoved hu
    · rw [if_neg hitem] at h ⊢
      rw [h]
      exact hu

theorem indifferent_sweep : Indifferent (fun p d => sweep ⟨m, p⟩ d) w := by
  apply indifferent_of (q := fun w' => ∃ d vs s l, Visited m d w.waiting w vs s l w')
  · rintro w₁ w₂ ⟨d₁, vs₁, s₁, l₁, h₁⟩ ⟨d₂, vs₂, s₂, l₂, h₂⟩
    exact h₁.same h₂
  · intro p d u hu
    refine (anyhow_sweep (c := ⟨m, p⟩) d (hu.orderly hw) (hu.answers ha)).imp ?_
    rintro s l r w' ⟨vs, hvs, -⟩
    rw [hu.waiting] at hvs
    exact ⟨_, vs, s, l, hvs.of_unmoved hu⟩

end Uses

/-! ### Sweeps -/

/-- A sweep made these visits, its attempts to send being answered like this. -/
structure Sweeps (m : Menu) (d : Deadline) (w : World) (vs : List Visit) (s : Replies)
    (l : List Deed) (r : Except Fault (List Outcome)) (w' : World) : Prop where
  /-- The open orders are visited, all of them, in the order of their numbers. -/
  orders : vs.map (·.order) = w.waiting
  turns : (w.waiting.map fun o => o.number).Pairwise (· < ·)
  /-- Each is given what the ones before it leave, and needs the rest of the kitchen. -/
  amounts : ∀ front v behind, vs = front ++ v :: behind →
    let left : String → Nat := fun i => w.onHand i - (front.map fun x => x.order.short i).sum
    Item.amounts v.filling.packed =
        ((v.order.names.map fun i => (i, due m (left i) v.order i)).filter fun a =>
          decide (0 < a.2)) ∧
      Item.amounts v.filling.requests =
        (v.order.names.map fun i => (i, v.order.short i - due m (left i) v.order i)).filter
          fun a => decide (0 < a.2)
  /-- What it is given is packed, whichever requests fail. -/
  given : ∀ v ∈ vs, ∃ o', w'.orders.find? v.order.number = some o' ∧
    v.order.Gains v.filling.packed o'
  others : ∀ n, (∀ v ∈ vs, v.order.number ≠ n) → w'.orders.find? n = w.orders.find? n
  answers : s = vs.flatMap (·.answers)
  sent : Deeds.sent l = vs.flatMap (·.messages)
  /-- What it needs is asked for one after the other, up to its own first failure. -/
  attempted : ∀ v ∈ vs, Attempts d v.order.number v.filling.requests v.sent v.answers v.messages
    v.fault
  /-- What was asked for is the first of what it needs, and all of it unless a request failed. -/
  first : ∀ v ∈ vs, v.sent <+: v.filling.requests ∧ (v.fault = none ↔ v.sent = v.filling.requests)
  /-- The failure that is reported is that of the last order with a request that failed. -/
  fails : ∀ f, r = .error f ↔ ∃ front v behind, vs = front ++ v :: behind ∧ v.fault = some f ∧
    ∀ x ∈ behind, x.fault = none
  succeeds : (∀ v ∈ vs, v.fault = none) → r = .ok (vs.map (·.outcome))

/-- What is due to an order is what the orders before it leave. -/
theorem due_emptied {front : List Order} (hfront : ∀ o ∈ front, o.Sound m) (st : Stock) (o : Order)
    (i : String) : due m ((emptied m front st).onHand i).units o i =
      due m ((st.onHand i).units - (front.map fun x => x.short i).sum) o i := by
  unfold due
  split
  · rfl
  · next hi => rw [onHand_emptied hfront st hi]

/-- What the order of a visit is given, and what it needs of the kitchen. -/
theorem amounts_of_visited {os : List Order} {front behind : List Visit} {v : Visit}
    (hsound : ∀ o ∈ os, o.Sound m)
    (h : Visited m (fun _ => d) os w (front ++ v :: behind) s l w') :
    let left : String → Nat := fun i => w.onHand i - (front.map fun x => x.order.short i).sum
    Item.amounts v.filling.packed =
        ((v.order.names.map fun i => (i, due m (left i) v.order i)).filter fun a =>
          decide (0 < a.2)) ∧
      Item.amounts v.filling.requests =
        (v.order.names.map fun i => (i, v.order.short i - due m (left i) v.order i)).filter
          fun a => decide (0 < a.2) := by
  rw [← h.orders, List.map_append, List.map_cons] at hsound
  obtain ⟨hfront, hv⟩ := List.forall_mem_append.1 hsound
  have hdue := due_emptied hfront w.stock v.order
  simp only [List.map_map] at hdue
  obtain ⟨hpacked, hrequests⟩ := amounts_filled (List.forall_mem_cons.1 hv).1
    (emptied m (front.map (·.order)) w.stock)
  simp only [hdue] at hpacked hrequests
  rw [h.filling]
  exact ⟨hpacked, hrequests⟩

/-- **Visits to the open orders make a sweep.** -/
theorem sweeps_of_visited (hw : w.Orderly m)
    (h : Visited m (fun _ => d) w.waiting w vs s l w')
    (hr : r = unlessFault (vs.filterMap (·.fault)).getLast? (vs.map (·.outcome))) :
    Sweeps m d w vs s l r w' := by
  constructor
  case orders => exact h.orders
  case turns => exact hw.numbers_ascending.sublist (List.filter_sublist.map _)
  case amounts =>
    rintro front v behind rfl
    exact amounts_of_visited (fun o ho => (hw.sound _ _ (hw.mem_waiting.1 ho).1).1) h
  case given =>
    intro v hv
    have hmem : v.order ∈ w.waiting := by
      rw [← h.orders]
      exact List.mem_map_of_mem hv
    exact h.given hw.waiting_nodup (hw.mem_waiting.1 hmem).1 hv
  case others => exact fun n => h.others
  case answers => exact h.answers
  case sent => exact h.sent
  case attempted => exact h.attempted
  case first => exact fun v hv => (h.attempted v hv).first
  case fails =>
    intro f
    rw [← List.getLast?_filterMap_eq_some, hr]
    cases (vs.filterMap (·.fault)).getLast? with
    | none => simp [unlessFault]
    | some g => simp [unlessFault]
  case succeeds =>
    intro hnone
    rw [hr, List.filterMap_eq_nil_iff.2 hnone]
    rfl

end Coverage

namespace Engine

/-- **Orders and stock do not depend on sending**: as long as the store answers, each of the three
uses leaves the same, however the attempts to send are answered, whatever the policy and the
deadline; and a failure ends no more than the requests for its own order. -/
theorem allocation_indifferent (e : Engine) (ops : List Operation)
    (hstore : (e.after ops).store.store.answers = true) :
    (∀ n, Coverage.Indifferent (fun p d => Coverage.coverNew ⟨e.menu, p⟩ d n) (e.after ops)) ∧
      (∀ item, Coverage.Indifferent (fun p d => Coverage.restock ⟨e.menu, p⟩ d item)
        (e.after ops)) ∧
      Coverage.Indifferent (fun p d => Coverage.sweep ⟨e.menu, p⟩ d) (e.after ops) ∧
      ∀ p d s l r w', Flow.Carried (Coverage.sweep ⟨e.menu, p⟩ d).run (e.after ops) s l r w' →
        ∃ vs, Coverage.Sweeps e.menu d (e.after ops) vs s l r w' := by
  have hw := World.orderly_after e ops
  refine ⟨Coverage.indifferent_coverNew hw hstore, Coverage.indifferent_restock hw hstore,
    Coverage.indifferent_sweep hw hstore, ?_⟩
  intro p d s l r w' h
  obtain ⟨vs, hvs, hr⟩ :=
    Coverage.anyhow_sweep (c := ⟨e.menu, p⟩) d hw hstore s l r w' h
  exact ⟨vs, Coverage.sweeps_of_visited hw hvs hr⟩

/-- The broker is down, so that the request for the first order fails; the second one is packed all
the same, and all is as if the broker were up. -/
theorem allocation_indifferent_fries :
    let ops : List Operation := [.place ⟨7⟩ [⟨"fries", Quantity.capped 3⟩],
      .place ⟨8⟩ [⟨"water", Quantity.one⟩, ⟨"nuggets", Quantity.one⟩],
      .addInventory "fries" (Quantity.capped 2), .addInventory "nuggets" Quantity.one]
    let down := after {} (ops ++ [.switchBroker false])
    let x := (coverage {}).sweep ⟨0, Span.zero⟩
    Work.result x down = .error (.late Span.zero) ∧
      ((Work.left x down).orders.values.map fun o => (o.status, Item.amounts o.packed)) =
        [(.inProgress, [("fries", 2)]), (.ready, [("water", 1), ("nuggets", 1)])] ∧
      (Work.left x (after {} ops)).Matches (Work.left x down) ∧
      ∃ vs s, Coverage.Sweeps (menu {}) ⟨0, Span.zero⟩ down vs s (x.run.trail .first down)
        (Work.result x down) (Work.left x down) := by
  intro ops down x
  obtain ⟨s, hs, -⟩ := Flow.carried_run .first x.run (after {} ops)
  obtain ⟨s', hs', -⟩ := Flow.carried_run .first x.run down
  have hdown : (after {} ops).Unmoved down :=
    ⟨by decide +kernel, by decide +kernel, by decide +kernel⟩
  obtain ⟨-, -, hsame, -⟩ := allocation_indifferent {} ops (by decide +kernel)
  obtain ⟨-, -, -, hsweep⟩ :=
    allocation_indifferent {} (ops ++ [.switchBroker false]) (by decide +kernel)
  obtain ⟨vs, hvs⟩ := hsweep (policy {}) ⟨0, Span.zero⟩ s' _ _ _ hs'
  refine ⟨by decide +kernel, by decide +kernel, ?_, vs, s', hvs⟩
  exact hsame (policy {}) _ _ _ _ _ _ (policy {}) _ _ _ _ _ _ (World.Unmoved.refl _) hdown hs hs'

end Engine

end Takeaway
