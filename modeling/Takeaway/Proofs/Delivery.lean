import Takeaway.Proofs.Sequence

/-!
Runs in which the messages that are still to be handled are handled one at a time, in any order,
together with those that are sent meanwhile. Main statement: what comes to the messages that are to
be handled or under way is what was said meanwhile.
-/

namespace Takeaway

open World (Mail Says)

/-- A moment at which nothing is in progress: the world, and the messages still to be handled. -/
structure Moment where
  world : World
  flight : Multiset Envelope

namespace Moment

variable {s : Moment} {w' : World} {a : Multiset Envelope}

/-- The messages still to be handled, and those still to be sent. -/
def pending (s : Moment) : Multiset Envelope := s.flight + s.world.underWay

/-- The moment at which the world has gone on: what was sent meanwhile is to be handled. -/
def on (s : Moment) (w' : World) : Moment := ⟨w', s.flight + s.world.sentUntil w'⟩

/-- The moment at which a message is taken up. -/
def take (s : Moment) (m : Envelope) : Moment := ⟨s.world, s.flight.erase m⟩

theorem pending_take {m : Envelope} (h : m ∈ s.flight) : {m} + (s.take m).pending = s.pending := by
  unfold pending take
  rw [← add_assoc, Multiset.singleton_add, Multiset.cons_erase h]

theorem pending_on_le (h : Says a s.world w') : (s.on w').pending ≤ s.pending + a := by
  unfold pending on
  rw [add_assoc, add_assoc]
  exact add_le_add_right h.sent_le _

theorem pending_on (h : Mail a s.world w') (hw : s.world.Flowing) :
    (s.on w').pending = s.pending + a := by
  unfold pending on
  rw [add_assoc, add_assoc, h.sent_eq hw]

end Moment

namespace Engine

/-- What may come next: a message that is still to be handled is handled, or time passes. -/
inductive Next (e : Engine) : Moment → Moment → Prop
  | handle (s : Moment) {m : Envelope} (h : m ∈ s.flight) :
    Next e s ((s.take m).on (e.handled m s.world))
  | rest (s : Moment) (wait : Wait) (limit : Option Nat) :
    Next e s (s.on (s.world.rested wait limit))
  | settle (s : Moment) : Next e s (s.on s.world.settle)

/-- The moments that may come after one. -/
def Leads (e : Engine) : Moment → Moment → Prop := Relation.ReflTransGen e.Next

/-- The moment after the given messages were handled in their order, each followed by the time in
which the notices under way are sent; none if a message is not there when its turn comes. -/
def through (e : Engine) : List Envelope → Moment → Option Moment
  | [], s => some s
  | m :: r, s =>
    if m ∈ s.flight then
      let s' := (s.take m).on (e.handled m s.world)
      e.through r (s'.on s'.world.settle)
    else none

theorem leads_of_through {e : Engine} {ms : List Envelope} {s s' : Moment}
    (h : e.through ms s = some s') : e.Leads s s' := by
  induction ms generalizing s with
  | nil =>
    obtain rfl := Option.some.inj h
    exact .refl
  | cons m r ih =>
    unfold through at h
    split at h
    · next hm => exact .head (.handle s hm) (.head (.settle _) (ih h))
    · cases h

end Engine

end Takeaway
