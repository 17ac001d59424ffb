import Takeaway.Proofs.Delivery
import Takeaway.Proofs.Engine.Conduct
import Mathlib.Data.Multiset.DershowitzManna

/-!
The messages die out. Main statement: when nothing is asked from outside, messages are handled only
finitely many times, whichever messages there are to begin with, in whatever order they are handled,
and whatever fails on the way.

Two things are counted: the units that are missing, and the weights of the messages that are to be
handled or under way. A message is replaced by lighter ones, unless some units were packed.
-/

namespace Takeaway

open World (Aside Says Orderly)

/-! ### Rounds -/

/-- What may go on between the handling of two messages: time passes, and the parts are switched. -/
inductive Moment.Idles : Moment → Moment → Prop
  | rest (s : Moment) (wait : Wait) (limit : Option Nat) :
    Idles s (s.on (s.world.rested wait limit))
  | settle (s : Moment) : Idles s (s.on s.world.settle)
  | switchStore (s : Moment) (answers : Bool) : Idles s ⟨s.world.switchStore answers, s.flight⟩
  | switchBroker (s : Moment) (isUp : Bool) : Idles s ⟨s.world.switchBroker isUp, s.flight⟩
  | failSends (s : Moment) (count : Nat) : Idles s ⟨s.world.failSends count, s.flight⟩

/-- A message that is to be handled is handled to its end, after whatever goes on before. Any call
of the store and any attempt to send may fail. -/
inductive Engine.Round (e : Engine) : Moment → Moment → Prop
  | handle {s u : Moment} {x : Envelope} {y : Flow CommandResult} {l : List Deed}
    {r : CommandResult} {v w' : World} (hu : Relation.ReflTransGen Moment.Idles s u)
    (hx : x ∈ u.flight) (hy : y ∈ e.router.flows x) (hrun : y.Reaches u.world l r v)
    (hrest : Aside 0 v w') : Round e s ((u.take x).on w')

/-- To handle a message by itself is a round. -/
theorem Engine.round_handled (e : Engine) {s : Moment} {x : Envelope} (hx : x ∈ s.flight) :
    e.Round s ((s.take x).on (e.handled x s.world)) :=
  .handle .refl hx (by rw [flows_eq]; exact List.mem_singleton_self _)
    (Flow.reaches_run .inTurn _ s.world) (e.aside_handled x s.world)

/-! ### The measure -/

/-- Messages that weigh less than one that was taken away may take its place. -/
theorem isDershowitzMannaLT_of_le {a b c d : Multiset ℕ} {k : ℕ} (ha : a ≤ b + c)
    (hd : {k} + b ≤ d) (hc : ∀ y ∈ c, y < k) : Multiset.IsDershowitzMannaLT a d := by
  have hb : a ∩ b ≤ d := (Multiset.inter_le_right.trans (Multiset.le_add_left b {k})).trans hd
  have hk : k ∈ d - a ∩ b := by
    have hsub : {k} ≤ d - b := le_tsub_of_add_le_right hd
    exact Multiset.mem_of_le (hsub.trans (tsub_le_tsub_left Multiset.inter_le_right d))
      (Multiset.mem_singleton_self k)
  refine ⟨a ∩ b, a - b, d - a ∩ b, ?_, ?_, (add_tsub_cancel_of_le hb).symm, fun y hy => ?_⟩
  · intro h0
    rw [h0] at hk
    exact Multiset.notMem_zero k hk
  · rw [add_comm]
    exact (Multiset.sub_add_inter a b).symm
  · have hy : y ∈ c := Multiset.mem_of_le (tsub_le_iff_left.2 ha) hy
    exact ⟨k, hk, hc y hy⟩

namespace Moment

/-- The weights of the messages still to be handled. -/
def weights (s : Moment) : Multiset Nat := s.pending.map Envelope.weight

/-- The one moment is closer to the end than the other: fewer units are missing, or as many, and
messages were replaced by lighter ones. -/
def Closer (s' s : Moment) : Prop :=
  Prod.Lex (· < ·) Multiset.IsDershowitzMannaLT (s'.world.lacking, s'.weights)
    (s.world.lacking, s.weights)

theorem closer_wf : WellFounded Closer :=
  InvImage.wf (fun s : Moment => (s.world.lacking, s.weights))
    (WellFounded.prod_lex wellFounded_lt Multiset.wellFounded_isDershowitzMannaLT)

/-- Nothing is further from the end. -/
structure Waits (m : Menu) (s u : Moment) : Prop where
  orderly : u.world.Orderly m
  lacking : u.world.lacking = s.world.lacking
  pending : u.pending ≤ s.pending

theorem waits_of_idles {m : Menu} {s u : Moment} (hs : s.world.Orderly m)
    (h : Relation.ReflTransGen Idles s u) : Waits m s u := by
  have haside : ∀ {s : Moment} {w' : World}, s.world.Orderly m → Aside 0 s.world w' →
      Waits m s (s.on w') := by
    intro s w' hs ha
    refine ⟨hs.aside ha, ?_, ?_⟩
    · show w'.lacking = _
      unfold World.lacking
      rw [ha.orders]
    · have hpending := pending_on_le (s := s) ha.toSays
      rwa [add_zero] at hpending
  induction h with
  | refl => exact ⟨hs, rfl, le_rfl⟩
  | @tail v u _ hv ih =>
    have hstep : Waits m v u := by
      have ho := ih.orderly
      cases hv with
      | rest wait limit => exact haside ho (v.world.aside_await .first wait limit)
      | settle => exact haside ho (v.world.aside_passWhile _)
      | switchStore answers => exact ⟨⟨ho.toTidy.switchStore answers, ho.sound⟩, rfl, le_rfl⟩
      | switchBroker isUp => exact ⟨⟨ho.toTidy.switchBroker isUp, ho.sound⟩, rfl, le_rfl⟩
      | failSends count => exact ⟨⟨ho.toTidy.failSends count, ho.sound⟩, rfl, le_rfl⟩
    exact ⟨hstep.orderly, hstep.lacking.trans ih.lacking, hstep.pending.trans ih.pending⟩

end Moment

namespace Engine

variable {e : Engine}

/-- **Every round comes closer to the end.** -/
theorem Round.closer {s s' : Moment} (h : e.Round s s') (hs : s.world.Orderly e.menu) :
    s'.world.Orderly e.menu ∧ s'.Closer s := by
  obtain @⟨u, x, y, l, r, v, w', hu, hx, hy, hrun, hrest⟩ := h
  rw [flows_eq, List.mem_singleton] at hy
  subst hy
  have hwaits := Moment.waits_of_idles hs hu
  have hdone := surely_response hwaits.orderly x _ _ _ hrun
  have horders : w'.orders = v.orders := hrest.orders
  have hlacking : w'.lacking = v.lacking := by unfold World.lacking; rw [horders]
  refine ⟨⟨(hrun.tidy hwaits.orderly.toTidy).aside hrest, hdone.sound.of_orders horders⟩, ?_⟩
  have hsays := hrun.spoken.trans hrest.toSays
  rw [add_zero] at hsays
  have hpending : ((u.take x).on w').pending ≤ (u.take x).pending + (Deeds.said l : Multiset _) :=
    Moment.pending_on_le hsays
  have hle := hdone.lacking
  have hstart := hwaits.lacking
  by_cases hlt : w'.lacking < s.world.lacking
  · exact Prod.Lex.left _ _ hlt
  · have heq : w'.lacking = s.world.lacking := by omega
    have hlighter : ∀ z ∈ Deeds.said l, z.weight < x.weight :=
      hdone.lighter.resolve_right (by omega)
    unfold Moment.Closer
    show Prod.Lex _ _ (w'.lacking, _) _
    rw [heq]
    refine Prod.Lex.right _ (isDershowitzMannaLT_of_le (k := x.weight)
      (b := (u.take x).weights) (c := (Deeds.said l : Multiset _).map Envelope.weight) ?_ ?_ ?_)
    · unfold Moment.weights
      rw [← Multiset.map_add]
      exact Multiset.map_le_map hpending
    · unfold Moment.weights
      rw [← Multiset.map_singleton, ← Multiset.map_add, Moment.pending_take hx]
      exact Multiset.map_le_map hwaits.pending
    · intro k hk
      obtain ⟨z, hz, rfl⟩ := Multiset.mem_map.1 hk
      exact hlighter z hz

/-! ### Main statement -/

/-- **The messages die out.** From any state that operations reach, with any messages to be
handled, there is no infinite row of rounds. -/
theorem rounds_end (e : Engine) (ops : List Operation) (flight : Multiset Envelope) :
    ¬ ∃ f : Nat → Moment, f 0 = ⟨e.after ops, flight⟩ ∧ ∀ k, e.Round (f k) (f (k + 1)) := by
  rintro ⟨f, hstart, hround⟩
  have horderly : ∀ k, (f k).world.Orderly e.menu := by
    intro k
    induction k with
    | zero =>
      rw [hstart]
      exact ⟨World.tidy_after e ops, World.sound_after e ops⟩
    | succ k ih => exact ((hround k).closer ih).1
  have : IsWellFounded Moment Moment.Closer := ⟨Moment.closer_wf⟩
  obtain ⟨k, hk⟩ := WellFounded.not_rel_apply_succ (r := Moment.Closer) f
  exact hk ((hround k).closer (horderly k)).2

end Engine

end Takeaway
