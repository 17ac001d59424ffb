import Takeaway.Proofs.Flow.Calls
import Takeaway.Proofs.Flow.Deeds
import Takeaway.Proofs.Flow.Each

/-!
What a flow does and how it ends when it is run by itself, taken together. Main statements: the
rules by which that follows from what its parts do, and that, as long as sending works, what is said
is exactly what comes to the messages sent or under way.
-/

namespace Takeaway

open World (Aside Mail)

/-! ### What is written, told and sent -/

/-- The order that an attempt was made to write. -/
def Deed.saved (d : Deed) : List Order :=
  match d.action with
  | .save o => [o]
  | _ => []

/-- An action that writes no order, and says nothing. -/
def Action.isStill : Action → Bool
  | .save _ | .send _ | .note _ => false
  | _ => true

namespace Deeds

/-- The orders that attempts were made to write. -/
def saved (l : List Deed) : List Order := l.flatMap Deed.saved

/-- These orders were to be written, these notices were handed over, and these messages were to be
sent, in this order each. -/
structure Tally (os : List Order) (notes sends : List Envelope) (l : List Deed) : Prop where
  saved : saved l = os
  noted : noted l = notes
  sent : sent l = sends

/-- No order was to be written, and nothing was said. -/
abbrev Still (l : List Deed) : Prop := Tally [] [] [] l

variable {l l' : List Deed} {os os' : List Order} {ns ns' xs xs' : List Envelope}

theorem saved_append : Deeds.saved (l ++ l') = Deeds.saved l ++ Deeds.saved l' :=
  List.flatMap_append

theorem still_nil : Still [] := ⟨rfl, rfl, rfl⟩

namespace Tally

theorem append (h : Tally os ns xs l) (h' : Tally os' ns' xs' l') :
    Tally (os ++ os') (ns ++ ns') (xs ++ xs') (l ++ l') :=
  ⟨by rw [saved_append, h.saved, h'.saved], by rw [noted_append, h.noted, h'.noted],
    by rw [sent_append, h.sent, h'.sent]⟩

theorem still_append (h : Still l) (h' : Tally os ns xs l') : Tally os ns xs (l ++ l') :=
  h.append h'

theorem append_still (h : Tally os ns xs l) (h' : Still l') : Tally os ns xs (l ++ l') := by
  simpa only [List.append_nil] using h.append h'

theorem said_eq_nil (h : Still l) : said l = [] := by
  unfold said
  rw [h.sent, h.noted]
  rfl

end Tally

theorem still_one {d : Deed} (hd : d.action.isStill = true) : Still [d] := by
  obtain ⟨w, a, v⟩ := d
  cases a <;> first | exact ⟨rfl, rfl, rfl⟩ | cases hd

theorem still_of_actions (h : ∀ d ∈ l, d.action.isStill = true) : Still l := by
  induction l with
  | nil => exact still_nil
  | cons d r ih =>
    obtain ⟨hd, hr⟩ := List.forall_mem_cons.1 h
    exact (still_one hd).append (ih hr)

/-- Where nothing is sent but one message, there is a number of attempts to send it. -/
theorem tally_of_only {e : Envelope} (h : ∀ d ∈ l, d.action = .send e ∨ d.action.isStill = true) :
    ∃ k, Tally [] [] (List.replicate k e) l := by
  induction l with
  | nil => exact ⟨0, still_nil⟩
  | cons d r ih =>
    obtain ⟨hd, hr⟩ := List.forall_mem_cons.1 h
    obtain ⟨k, hk⟩ := ih hr
    rcases hd with hsend | hstill
    · obtain ⟨w, a, v⟩ := d
      cases hsend
      have hone : Tally [] [] [e] [⟨w, .send e, v⟩] := ⟨rfl, rfl, rfl⟩
      exact ⟨k + 1, hone.append hk⟩
    · exact ⟨k, (still_one hstill).append hk⟩

end Deeds

namespace Flow

variable {α β : Type} {rank : World.Rank} {w : World}

/-- What is true of each action of a flow is true of all that it does. -/
theorem Each.surely {P : Action → Prop} {x : Flow α} (hx : x.Each P) :
    x.Surely w fun l _ _ => ∀ d ∈ l, P d.action := by
  induction x generalizing w with
  | done a => exact surely_done fun d hd => by cases hd
  | act a next ih =>
    refine surely_act fun r v _ => (ih r (hx.2 r)).imp fun l _ _ hl d hd => ?_
    rcases List.mem_cons.1 hd with rfl | hd
    · exact hx.1
    · exact hl d hd
  | wait wt limit next ih => exact surely_wait fun b v _ => ih b (hx b)

theorem Each.still {x : Flow α} (hx : x.Each fun a => a.isStill = true) :
    x.Surely w fun l _ _ => Deeds.Still l :=
  hx.surely.imp fun _ _ _ hl => Deeds.still_of_actions hl

/-! ### Trails -/

theorem trail_bind (x : Flow α) (f : α → Flow β) (w : World) :
    (x.bind f).trail rank w =
      x.trail rank w ++ (f (x.run rank w).1).trail rank (x.run rank w).2 := by
  induction x generalizing w with
  | done a => rfl
  | act a next ih => exact congrArg _ (ih _ _)
  | wait wt limit next ih => exact ih _ _

theorem trail_wait (wt : Wait) (limit : Option Nat) (next : Bool → Flow α) (w : World) :
    (wait wt limit next).trail rank w =
      (next (w.await rank wt limit).1).trail rank (w.await rank wt limit).2 := rfl

/-- A flow that does not wait does the same things under any limit. -/
theorem Prompt.trail_before {x : Flow α} (hx : x.Prompt w) (tick : Nat) :
    (x.before tick).trail rank w = x.trail rank w := by
  induction x generalizing w with
  | done a => rfl
  | act a next ih => exact congrArg _ (ih _ hx)
  | wait wt limit next ih =>
    cases wt with
    | pause s =>
      obtain ⟨hs, hnext⟩ := hx
      have hw : ((wait (.pause s) limit next).before tick).trail rank w =
          ((next true).before tick).trail rank w := by
        cases limit <;> rw [before, trail_wait, await_of_ticks hs] <;> rfl
      rw [hw, trail_wait, await_of_ticks hs]
      exact ih true hnext
    | forever => cases hx
    | slot => cases hx

/-- **A run by itself says what its deeds say**: as long as sending works, that and nothing else
comes to the messages sent or under way. -/
theorem mail_run (rank : World.Rank) (x : Flow α) (w : World) :
    Mail (Deeds.said (x.trail rank w)) w (x.run rank w).2 := by
  induction x generalizing w with
  | done a => exact World.mail_of_same rfl rfl
  | act a next ih =>
    show Mail (Deeds.said (_ :: _) : List Envelope) _ _
    rw [Deeds.said_cons]
    exact (w.mail_perform a).trans (ih _ _)
  | wait wt limit next ih => exact (w.aside_await rank wt limit).toMail.zero_trans (ih _ _)

/-! ### Deeds and ends together -/

/-- Of the deeds of a flow that is run by itself, of the value it ends with and of the world that it
leaves a statement holds. -/
def Does (rank : World.Rank) (x : Flow α) (w : World) (p : List Deed → α → World → Prop) : Prop :=
  p (x.trail rank w) (x.run rank w).1 (x.run rank w).2

variable {p : List Deed → α → World → Prop} {q : List Deed → β → World → Prop}

theorem does_done {a : α} (h : p [] a w) : (done a).Does rank w p := h

theorem does_ask {a : Action} {p : List Deed → a.Answer → World → Prop}
    (h : p [⟨w, a, (w.perform a).2⟩] (w.perform a).1 (w.perform a).2) : (ask a).Does rank w p := h

theorem does_act {a : Action} {next : a.Answer → Flow α}
    (h : (next (w.perform a).1).Does rank (w.perform a).2 fun l =>
      p (⟨w, a, (w.perform a).2⟩ :: l)) : (act a next).Does rank w p := h

theorem does_wait {wt : Wait} {limit : Option Nat} {next : Bool → Flow α}
    (h : (next (w.await rank wt limit).1).Does rank (w.await rank wt limit).2 p) :
    (wait wt limit next).Does rank w p := h

theorem Does.imp {x : Flow α} {p' : List Deed → α → World → Prop} (h : x.Does rank w p)
    (hp : ∀ l a w', p l a w' → p' l a w') : x.Does rank w p' := hp _ _ _ h

theorem Surely.does {x : Flow α} (h : x.Surely w p) : x.Does rank w p :=
  h _ _ _ (reaches_run rank x w)

theorem Does.bind {x : Flow α} {f : α → Flow β} (hx : x.Does rank w p)
    (hf : ∀ l a w', p l a w' → (f a).Does rank w' fun l' => q (l ++ l')) :
    (x.bind f).Does rank w q := by
  unfold Does
  rw [trail_bind, run_bind]
  exact hf _ _ _ hx

end Flow

/-! ### Work -/

section Work

variable {ε α β : Type} {rank : World.Rank} {w : World}

/-- Of the deeds of some work that is done by itself, of its result and of the world that it leaves
a statement holds. -/
def WorkDoes (rank : World.Rank) (x : ExceptT ε Flow α) (w : World)
    (p : List Deed → Except ε α → World → Prop) : Prop := Flow.Does rank x.run w p

variable {p : List Deed → Except ε α → World → Prop} {q : List Deed → Except ε β → World → Prop}

theorem workDoes_pure {a : α} (h : p [] (.ok a) w) :
    WorkDoes rank (pure a : ExceptT ε Flow α) w p := h

theorem workDoes_throw {e : ε} (h : p [] (.error e) w) :
    WorkDoes rank (throw e : ExceptT ε Flow α) w p := h

theorem WorkDoes.imp {x : ExceptT ε Flow α} {p' : List Deed → Except ε α → World → Prop}
    (h : WorkDoes rank x w p) (hp : ∀ l r w', p l r w' → p' l r w') : WorkDoes rank x w p' :=
  hp _ _ _ h

theorem WorkDoes.and {x : ExceptT ε Flow α} {p' : List Deed → Except ε α → World → Prop}
    (h : WorkDoes rank x w p) (h' : WorkDoes rank x w p') :
    WorkDoes rank x w fun l r w' => p l r w' ∧ p' l r w' := ⟨h, h'⟩

theorem WorkDoes.ends {x : ExceptT ε Flow α} {p : Except ε α → World → Prop}
    (h : WorkDoes rank x w fun _ => p) : WorkEnds rank x w p := h

theorem WorkEnds.does {x : ExceptT ε Flow α} {p : Except ε α → World → Prop}
    (h : WorkEnds rank x w p) : WorkDoes rank x w fun _ => p := h

theorem WorkSurely.does {x : ExceptT ε Flow α} (h : WorkSurely x w p) : WorkDoes rank x w p :=
  Flow.Surely.does h

/-- Still work, with what it comes to. -/
theorem WorkEnds.still {x : ExceptT ε Flow α} {p : Except ε α → World → Prop}
    (h : WorkEnds rank x w p) (hx : EachWork (fun a => a.isStill = true) x) :
    WorkDoes rank x w fun l r w' => Deeds.Still l ∧ p r w' := ⟨(Flow.Each.still hx).does, h⟩

theorem WorkDoes.bind {x : ExceptT ε Flow α} {f : α → ExceptT ε Flow β} (hx : WorkDoes rank x w p)
    (hok : ∀ l a w', p l (.ok a) w' → WorkDoes rank (f a) w' fun l' => q (l ++ l'))
    (herr : ∀ l e w', p l (.error e) w' → q l (.error e) w') : WorkDoes rank (x >>= f) w q := by
  refine Flow.Does.bind hx fun l r w' hr => ?_
  cases r with
  | ok a => exact hok l a w' hr
  | error e =>
    refine Flow.does_done ?_
    rw [List.append_nil]
    exact herr l e w' hr

theorem workDoes_lift {x : Flow α} (h : x.Does rank w fun l a w' => p l (.ok a) w') :
    WorkDoes rank (ExceptT.lift x : ExceptT ε Flow α) w p := by
  refine Flow.Does.bind h fun l a w' ha => Flow.does_done ?_
  rwa [List.append_nil]

/-- Work that goes on after a flow, which cannot fail. -/
theorem Flow.Does.bind_lift {x : Flow α} {f : α → ExceptT ε Flow β}
    {p : List Deed → α → World → Prop} (hx : x.Does rank w p)
    (hf : ∀ l a w', p l a w' → WorkDoes rank (f a) w' fun l' => q (l ++ l')) :
    WorkDoes rank (ExceptT.lift x >>= f) w q := by
  refine WorkDoes.bind (p := fun l r w' => ∃ a, r = .ok a ∧ p l a w')
    (workDoes_lift (hx.imp fun l a w' ha => ⟨a, rfl, ha⟩)) ?_ (by rintro _ _ _ ⟨_, ⟨⟩, -⟩)
  rintro l a w' ⟨_, ⟨⟩, ha⟩
  exact hf l a w' ha

/-- Work that goes on unless something is refused. -/
theorem workDoes_bind_ofRefusal {x : Except Refusal α} {f : α → Work β}
    {q : List Deed → Except Fault β → World → Prop}
    (hok : ∀ a, x = .ok a → WorkDoes rank (f a) w q)
    (herr : ∀ r, x = .error r → q [] (.error (Fault.ofRefusal r)) w) :
    WorkDoes rank (Work.ofRefusal x >>= f) w q := by
  cases x with
  | ok a => exact hok a rfl
  | error r => exact workDoes_throw (herr r rfl)

/-- Work that does not wait does the same things under a deadline. -/
theorem WorkDoes.within {x : Work α} {p : List Deed → Except Fault α → World → Prop}
    (h : WorkDoes rank x w p) (hx : Flow.Prompt x.run w) (d : Deadline) :
    WorkDoes rank (Work.within d x) w p := by
  refine Flow.Does.bind (p := fun l r w' => ∃ a, r = some a ∧ p l a w') ?_ ?_
  · unfold Flow.Does
    rw [hx.run_before, hx.trail_before]
    exact ⟨_, rfl, h⟩
  · rintro l _ w' ⟨a, rfl, ha⟩
    refine Flow.does_done ?_
    rwa [List.append_nil]

end Work

end Takeaway
