import Mathlib.Algebra.BigOperators.Group.Finset.Basic
import Takeaway.Command.Router
import Takeaway.Proofs.Flow.Parts
import Takeaway.Proofs.Flow.Quiet
import Takeaway.Proofs.Flow.Run

/-!
What handlers make of a message, each by itself and one after the other. Main statement: handlers
that have no part of the world in common come to the same one after the other as each by itself;
and what the router counts are their answers.
-/

namespace Takeaway

open World (Alike)

variable {w v : World} {m : Envelope} {h : Handler} {P Q : Part → Prop}

/-! ### What handlers have counted -/

/-- How many messages the handlers of a kind have handled, whatever the outcome. -/
def Metrics.executions (m : Metrics) (kind : String) : Nat :=
  m.value (.commands kind .rejected) + m.value (.commands kind .success) +
    m.value (.commands kind .failure)

namespace Handler

/-- How the handling of a message has ended that came to a result. -/
def outcome (h : Handler) (m : Envelope) (r : CommandResult) : Series.Result :=
  match h.build m with
  | .error _ => .rejected
  | .ok _ => if r.succeeded then .success else .failure

/-- What is counted of the handling of a message that came to a result. -/
def counted (h : Handler) (m : Envelope) (r : CommandResult) : List Series :=
  match h.build m with
  | .error _ => [.commands h.kind .rejected]
  | .ok _ => [.commandTimes h.kind, .commands h.kind (h.outcome m r)]

variable {r : CommandResult} {kind : String}

theorem count_counted_commands {outcome : Series.Result} :
    (h.counted m r).count (.commands kind outcome) =
      if h.kind = kind ∧ h.outcome m r = outcome then 1 else 0 := by
  unfold counted Handler.outcome
  cases h.build m with
  | error f => simp only [List.count_singleton, beq_iff_eq, Series.commands.injEq]
  | ok c =>
    simp only [List.count_cons, List.count_nil, beq_iff_eq, Series.commands.injEq, reduceCtorEq,
      if_false, Nat.zero_add, Nat.add_zero]

theorem count_counted_times :
    (h.counted m r).count (.commandTimes kind) =
      if h.kind = kind ∧ (h.build m).isOk then 1 else 0 := by
  unfold counted
  cases h.build m with
  | error f => simp [Except.isOk, Except.toBool]
  | ok c => simp [List.count_cons, Except.isOk, Except.toBool]

theorem unrouted_not_mem_counted : Series.unroutedEvents ∉ h.counted m r := by
  unfold counted
  cases h.build m <;> simp

/-- Counts by kind add up to the count over all kinds. -/
theorem sum_countP {kinds : Finset String} {hs : List Handler} (hkinds : ∀ h ∈ hs, h.kind ∈ kinds)
    (p : Handler → Prop) [DecidablePred p] :
    ∑ kind ∈ kinds, hs.countP (fun h => h.kind = kind ∧ p h) = hs.countP p := by
  induction hs with
  | nil => simp only [List.countP_nil, Finset.sum_const_zero]
  | cons h hs ih =>
    simp only [List.countP_cons, Finset.sum_add_distrib, decide_eq_true_eq]
    rw [ih fun g hg => hkinds g (List.mem_cons_of_mem h hg)]
    congr 1
    simp only [ite_and, Finset.sum_ite_eq, hkinds h List.mem_cons_self, if_true]

end Handler

theorem count_flatMap_of_ite {f : Handler → List Series} {s : Series} {p : Handler → Prop}
    [DecidablePred p] (hone : ∀ h, (f h).count s = if p h then 1 else 0) (hs : List Handler) :
    (hs.flatMap f).count s = hs.countP p := by
  induction hs with
  | nil => rfl
  | cons h hs ih =>
    rw [List.flatMap_cons, List.count_append, hone, ih, List.countP_cons, Nat.add_comm]
    simp only [decide_eq_true_eq]

theorem length_eq_countP_outcomes (hs : List Handler) (f : Handler → Series.Result) :
    hs.length = hs.countP (f · = .rejected) + hs.countP (f · = .success) +
      hs.countP (f · = .failure) := by
  induction hs with
  | nil => rfl
  | cons h hs ih =>
    simp only [List.length_cons, List.countP_cons, decide_eq_true_eq]
    cases f h <;> simp only [reduceCtorEq, if_true, if_false] <;> omega

/-- What was counted are the answers of some handlers to a message. -/
structure Tallied (m : Envelope) (hs : List Handler) (answer : Handler → CommandResult)
    (before after : Metrics) : Prop where
  executed : ∀ kind outcome, after.value (.commands kind outcome) =
    before.value (.commands kind outcome) +
      hs.countP fun h => h.kind = kind ∧ h.outcome m (answer h) = outcome
  timed : ∀ kind, after.value (.commandTimes kind) =
    before.value (.commandTimes kind) + hs.countP fun h => h.kind = kind ∧ (h.build m).isOk
  /-- Over all outcomes and kinds, there is one more for each answer. -/
  executions : ∀ kinds : Finset String, (∀ h ∈ hs, h.kind ∈ kinds) →
    ∑ kind ∈ kinds, after.executions kind = ∑ kind ∈ kinds, before.executions kind + hs.length
  /-- Over all kinds, there is one more for each command that was run. -/
  times : ∀ kinds : Finset String, (∀ h ∈ hs, h.kind ∈ kinds) →
    ∑ kind ∈ kinds, after.value (.commandTimes kind) =
      ∑ kind ∈ kinds, before.value (.commandTimes kind) + hs.countP fun h => (h.build m).isOk
  unrouted : after.value .unroutedEvents = before.value .unroutedEvents

theorem tallied_of_counted {hs : List Handler} {answer : Handler → CommandResult}
    {before after : Metrics}
    (hvalues : ∀ s : Series, s.isRouters = true →
      after.value s = before.value s + (hs.flatMap fun h => h.counted m (answer h)).count s) :
    Tallied m hs answer before after := by
  have hexecuted : ∀ kind outcome, after.value (.commands kind outcome) =
      before.value (.commands kind outcome) +
        hs.countP fun h => h.kind = kind ∧ h.outcome m (answer h) = outcome := by
    intro kind outcome
    rw [hvalues _ rfl, count_flatMap_of_ite fun h => h.count_counted_commands]
  have htimed : ∀ kind, after.value (.commandTimes kind) =
      before.value (.commandTimes kind) +
        hs.countP fun h => h.kind = kind ∧ (h.build m).isOk := by
    intro kind
    rw [hvalues _ rfl, count_flatMap_of_ite fun h => h.count_counted_times]
  refine ⟨hexecuted, htimed, fun kinds hkinds => ?_, fun kinds hkinds => ?_, ?_⟩
  · unfold Metrics.executions
    simp only [hexecuted, Finset.sum_add_distrib, Handler.sum_countP hkinds]
    have hlength := length_eq_countP_outcomes hs fun h => h.outcome m (answer h)
    omega
  · simp only [htimed, Finset.sum_add_distrib, Handler.sum_countP hkinds, Bool.decide_eq_true]
  · rw [hvalues _ rfl, List.count_eq_zero.2, Nat.add_zero]
    intro hmem
    obtain ⟨h, -, hh⟩ := List.mem_flatMap.1 hmem
    exact h.unrouted_not_mem_counted hh

/-! ### Handlers with nothing in common -/

/-- Whatever command a handler makes of a message keeps to some parts of the world. -/
def Handler.KeepsTo (h : Handler) (m : Envelope) (P : Part → Prop) : Prop :=
  ∀ c, h.build m = .ok c → ∀ d, (c.run d).KeepsTo P

namespace Router

/-- Handlers, told apart by their ids, that have no part of the world in common. The notices under
way use the mail too, so there are none where a handler does. -/
structure Apart (m : Envelope) (parts : Nat → Part → Prop) (w : World) (hs : List Handler) :
    Prop where
  same : ∀ g ∈ hs, ∀ h ∈ hs, g.id = h.id → g = h
  keeps : ∀ h ∈ hs, h.KeepsTo m (parts h.id)
  uncounted : ∀ h ∈ hs, ¬ parts h.id .counts
  apart : ∀ g ∈ hs, ∀ h ∈ hs, g.id ≠ h.id → ∀ p, parts g.id p → ¬ parts h.id p
  mail : ∀ h ∈ hs, parts h.id .mail → w.Alone

theorem Apart.mono {parts : Nat → Part → Prop} {gs hs : List Handler} (h : Apart m parts w hs)
    (hsub : ∀ g ∈ gs, g ∈ hs) : Apart m parts w gs where
  same f hf g hg := h.same f (hsub f hf) g (hsub g hg)
  keeps g hg := h.keeps g (hsub g hg)
  uncounted g hg := h.uncounted g (hsub g hg)
  apart f hf g hg := h.apart f (hsub f hf) g (hsub g hg)
  mail g hg := h.mail g (hsub g hg)

variable (r : Router)

theorem run_handle_of_error {f : Fault} (hf : h.build m = .error f) :
    (r.handle h m).run .inTurn w =
      (⟨h.kind, some f⟩, w.count (.commands h.kind .rejected) 1) := by
  unfold handle
  rw [hf]
  rfl

theorem run_handle_of_ok {c : Command} (hc : h.build m = .ok c) {x : Ending} {w₁ : World}
    (hx : (c.run (w.deadline r.timeout)).run .inTurn w = (x, w₁)) :
    (r.handle h m).run .inTurn w = (⟨h.kind, x.fault?⟩,
      (w₁.count (.commandTimes h.kind) 1).count
        (.commands h.kind (if x.fault?.isNone then .success else .failure)) 1) := by
  unfold handle
  rw [hc]
  show ((c.run (w.deadline r.timeout)).bind _).run .inTurn w = _
  rw [Flow.run_bind, hx]
  rfl

/-- What a handler answers depends on the parts that it keeps to, and on the clock. -/
theorem handle_alike (hh : h.KeepsTo m P) (hcounts : ¬ P .counts) (halike : Alike P w v)
    (hnow : v.now = w.now) :
    ((r.handle h m).run .inTurn v).1 = ((r.handle h m).run .inTurn w).1 := by
  cases hb : h.build m with
  | error f => rw [run_handle_of_error r hb, run_handle_of_error r hb]
  | ok c =>
    have hd : v.deadline r.timeout = w.deadline r.timeout := by
      unfold World.deadline
      rw [hnow]
    have hx : ((c.run (w.deadline r.timeout)).run .inTurn v).1 =
        ((c.run (w.deadline r.timeout)).run .inTurn w).1 :=
      ((hh c hb _).run_alike hcounts halike hnow).1
    rw [run_handle_of_ok r hb rfl, run_handle_of_ok r hb rfl, hd, hx]

theorem handle_apart (hh : h.KeepsTo m P) (hapart : ∀ p, P p → ¬ Q p) (hmail : Q .mail → w.Alone) :
    Alike Q w ((r.handle h m).run .inTurn w).2 := by
  cases hb : h.build m with
  | error f =>
    rw [run_handle_of_error r hb]
    exact .of_same rfl rfl rfl rfl rfl rfl
  | ok c =>
    rw [run_handle_of_ok r hb rfl]
    exact ((hh c hb _).run_apart hapart hmail).trans (.of_same rfl rfl rfl rfl rfl rfl)

/-- The handling of a message is counted once, by what it came to. -/
theorem value_handle (hh : h.KeepsTo m P) (hcounts : ¬ P .counts) {s : Series}
    (hs : s.isRouters = true) :
    ((r.handle h m).run .inTurn w).2.metrics.value s =
      w.metrics.value s + (h.counted m ((r.handle h m).run .inTurn w).1).count s := by
  unfold Handler.counted Handler.outcome
  cases hb : h.build m with
  | error f =>
    rw [run_handle_of_error r hb, World.value_count_one]
    dsimp only
    rw [List.count_singleton]
  | ok c =>
    have hrun : ((c.run (w.deadline r.timeout)).run .inTurn w).2.metrics.value s =
        w.metrics.value s := (hh c hb _).run_value hcounts hs
    rw [run_handle_of_ok r hb rfl, World.value_count_one, World.value_count_one, hrun]
    dsimp only
    rw [List.count_cons, List.count_singleton, Nat.add_assoc, Nat.add_comm (ite _ _ _)]
    rfl

/-- **Handlers with nothing in common answer one after the other as each would by itself**, and
each answer is counted. -/
theorem runEach_handle {parts : Nat → Part → Prop} {hs : List Handler} (hapart : Apart m parts w hs)
    (honce : (hs.map (·.id)).Nodup) (hnow : v.now = w.now)
    (halike : ∀ h ∈ hs, Alike (parts h.id) w v) :
    (Flow.runEach (hs.map (r.handle · m)) v).1 =
        hs.map (fun h => ((r.handle h m).run .inTurn w).1) ∧
      ∀ s : Series, s.isRouters = true →
        (Flow.runEach (hs.map (r.handle · m)) v).2.metrics.value s = v.metrics.value s +
          (hs.flatMap fun h => h.counted m ((r.handle h m).run .inTurn w).1).count s := by
  induction hs generalizing v with
  | nil => exact ⟨rfl, fun _ _ => rfl⟩
  | cons h hs ih =>
    have hhead := List.mem_cons_self (a := h) (l := hs)
    have htail : ∀ g ∈ hs, g ∈ h :: hs := fun g hg => List.mem_cons_of_mem h hg
    rw [List.map_cons, List.nodup_cons] at honce
    have hh := hapart.keeps h hhead
    have hcounts := hapart.uncounted h hhead
    have hanswer := r.handle_alike hh hcounts (halike h hhead) hnow
    -- the rest begins where the first has ended, but for the clock
    let u : World := { ((r.handle h m).run .inTurn v).2 with now := w.now }
    have hrest : ∀ g ∈ hs, Alike (parts g.id) w u := by
      intro g hg
      have hne : h.id ≠ g.id := fun heq => honce.1 (heq ▸ List.mem_map_of_mem hg)
      have hbefore := halike g (htail g hg)
      have hafter := r.handle_apart hh (hapart.apart h hhead g (htail g hg) hne)
        fun hp => hbefore.alone hp (hapart.mail g (htail g hg) hp)
      exact (hbefore.trans hafter).trans (.of_same rfl rfl rfl rfl rfl rfl)
    obtain ⟨hanswers, hvalues⟩ := ih (hapart.mono htail) honce.2 (v := u) rfl hrest
    have hstep : Flow.runEach ((h :: hs).map (r.handle · m)) v =
        (((r.handle h m).run .inTurn v).1 :: (Flow.runEach (hs.map (r.handle · m)) u).1,
          (Flow.runEach (hs.map (r.handle · m)) u).2.reach
            ((r.handle h m).run .inTurn v).2.now) := by
      unfold u
      rw [← hnow]
      rfl
    rw [hstep]
    refine ⟨by rw [List.map_cons, hanswer, hanswers], fun s hs => ?_⟩
    rw [List.flatMap_cons, List.count_append, ← hanswer, ← Nat.add_assoc,
      ← r.value_handle hh hcounts hs]
    exact hvalues s hs

end Router

end Takeaway
