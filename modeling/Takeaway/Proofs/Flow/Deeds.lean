import Takeaway.Proofs.Flow.Run

/-!
What flows do: the actions that are done one after the other, with the worlds before and after
each, whichever calls of the store and attempts to send fail on the way. Main statements: the rules
by which what a flow surely does follows from what its parts do, and that a run of a flow by itself
is one of the ways to go through it.
-/

namespace Takeaway

open World (Aside Mail Says)

/-- An action that was done. -/
structure Deed where
  before : World
  action : Action
  after : World

namespace Deed

/-- The message that an attempt was made to send. -/
def sent (d : Deed) : List Envelope :=
  match d.action with
  | .send e => [e]
  | _ => []

/-- The message that was handed over as a notice. -/
def noted (d : Deed) : List Envelope :=
  match d.action with
  | .note e => [e]
  | _ => []

end Deed

namespace Flow

variable {α β : Type} {w w' : World} {l : List Deed}

/-- A flow can be gone through: it does these deeds, and ends with this value in this world. -/
inductive Reaches : Flow α → World → List Deed → α → World → Prop
  | done (a : α) (w : World) : Reaches (.done a) w [] a w
  | act {a : Action} {next : a.Answer → Flow α} {w v w' : World} {r : a.Answer} {l : List Deed}
    {x : α} (h : w.Answers a r v) (hnext : Reaches (next r) v l x w') :
    Reaches (.act a next) w (⟨w, a, v⟩ :: l) x w'
  | wait {wt : Wait} {limit : Option Nat} {next : Bool → Flow α} {w v w' : World} {b : Bool}
    {l : List Deed} {x : α} (h : Aside 0 w v) (hnext : Reaches (next b) v l x w') :
    Reaches (.wait wt limit next) w l x w'

/-! ### Runs by themselves -/

/-- The deeds of a flow that is run by itself. -/
def trail (rank : World.Rank) : Flow α → World → List Deed
  | done _, _ => []
  | act a next, w =>
    ⟨w, a, (w.perform a).2⟩ :: (next (w.perform a).1).trail rank (w.perform a).2
  | wait wt limit next, w =>
    (next (w.await rank wt limit).1).trail rank (w.await rank wt limit).2

/-- **A run by itself goes through the flow.** -/
theorem reaches_run (rank : World.Rank) (x : Flow α) (w : World) :
    x.Reaches w (x.trail rank w) (x.run rank w).1 (x.run rank w).2 := by
  induction x generalizing w with
  | done a => exact .done a w
  | act a next ih => exact .act (.performed a) (ih _ _)
  | wait wt limit next ih => exact .wait (w.aside_await rank wt limit) (ih _ _)

/-! ### What every way through a flow keeps -/

theorem Reaches.invariant {P : World → Prop} {x : Flow α} {a : α}
    (hact : ∀ w a r v, World.Answers w a r v → P w → P v)
    (haside : ∀ w v, Aside 0 w v → P w → P v) (h : x.Reaches w l a w') (hw : P w) : P w' := by
  induction h with
  | done => exact hw
  | act h _ ih => exact ih (hact _ _ _ _ h hw)
  | wait h _ ih => exact ih (haside _ _ h hw)

theorem Reaches.tidy {x : Flow α} {a : α} (h : x.Reaches w l a w') (hw : w.Tidy) : w'.Tidy := by
  refine h.invariant (fun w a r v hr hw => ?_) (fun _ _ ha hw => hw.aside ha) hw
  cases hr with
  | performed => exact hw.perform a
  | _ => exact hw

end Flow

/-- What an action says comes to the messages sent or under way. -/
theorem World.mail_perform (w : World) (a : Action) :
    Mail ((Deed.mk w a (w.perform a).2).sent ++ (Deed.mk w a (w.perform a).2).noted :
      List Envelope) w (w.perform a).2 := by
  have hsame : ∀ {u : World}, u.broker = w.broker → u.notices = w.notices →
      Mail (([] ++ [] : List Envelope) : Multiset Envelope) w u := World.mail_of_same
  cases a with
  | send e => exact (aside_send w e).toMail
  | note e => exact (aside_note w e).toMail
  | nextNumber =>
    rcases w.nextNumber_cases with ⟨f, heq⟩ | heq <;> rw [heq] <;> exact hsame rfl rfl
  | save o =>
    rcases w.save_cases o with ⟨f, heq⟩ | heq <;> rw [heq] <;> exact hsame rfl rfl
  | take item q =>
    rcases w.take_cases item q with ⟨f, heq⟩ | ⟨s, -, heq⟩ <;> rw [heq] <;> exact hsame rfl rfl
  | add item q =>
    obtain ⟨counts, heq⟩ := w.add_eq item q
    rw [heq]
    exact hsame rfl rfl
  | _ => exact hsame rfl rfl

/-- What an action says, at most. -/
theorem World.says_answers {w v : World} {a : Action} {r : a.Answer} (h : w.Answers a r v) :
    Says ((Deed.mk w a v).sent ++ (Deed.mk w a v).noted : List Envelope) w v := by
  cases h with
  | performed => exact (w.mail_perform a).toSays
  | _ => exact (World.mail_of_same rfl rfl).toSays.mono (Multiset.zero_le _)

namespace Deeds

/-- The messages that attempts were made to send. -/
def sent (l : List Deed) : List Envelope := l.flatMap Deed.sent

/-- The messages that were handed over as notices. -/
def noted (l : List Deed) : List Envelope := l.flatMap Deed.noted

/-- All messages that were said. -/
def said (l : List Deed) : List Envelope := sent l ++ noted l

variable {l l' : List Deed}

theorem sent_append : sent (l ++ l') = sent l ++ sent l' := List.flatMap_append

theorem noted_append : noted (l ++ l') = noted l ++ noted l' := List.flatMap_append

theorem mem_said_append {e : Envelope} : e ∈ said (l ++ l') ↔ e ∈ said l ∨ e ∈ said l' := by
  unfold said
  rw [sent_append, noted_append]
  simp only [List.mem_append]
  tauto

theorem said_cons (d : Deed) (l : List Deed) :
    (said (d :: l) : Multiset Envelope) = (d.sent ++ d.noted : List Envelope) + said l := by
  unfold said sent noted
  simp only [List.flatMap_cons, ← Multiset.coe_add]
  abel

end Deeds

namespace Flow

variable {α β : Type} {w w' : World} {l : List Deed}

/-- No message is about but those that were before, and those that were said. -/
theorem Reaches.spoken {x : Flow α} {a : α} (h : x.Reaches w l a w') :
    Says (Deeds.said l) w w' := by
  induction h with
  | done a w => exact (World.mail_of_same rfl rfl).toSays
  | act h _ ih =>
    rw [Deeds.said_cons]
    exact (World.says_answers h).trans ih
  | wait h _ ih =>
    have := h.toSays.trans ih
    rwa [zero_add] at this

/-! ### What a flow surely does -/

/-- Whichever way a flow is gone through, a statement holds of its deeds, of the value it ends with
and of the world that it leaves. -/
def Surely (x : Flow α) (w : World) (p : List Deed → α → World → Prop) : Prop :=
  ∀ l a w', x.Reaches w l a w' → p l a w'

variable {p : List Deed → α → World → Prop} {q : List Deed → β → World → Prop}

theorem surely_done {a : α} (h : p [] a w) : (done a).Surely w p := by
  rintro l b w' ⟨⟩
  exact h

theorem surely_act {a : Action} {next : a.Answer → Flow α}
    (h : ∀ r v, w.Answers a r v → (next r).Surely v fun l => p (⟨w, a, v⟩ :: l)) :
    (act a next).Surely w p := by
  rintro l b w' (_ | ⟨hr, hnext⟩ | _)
  exact h _ _ hr _ _ _ hnext

theorem surely_wait {wt : Wait} {limit : Option Nat} {next : Bool → Flow α}
    (h : ∀ b v, Aside 0 w v → (next b).Surely v p) : (wait wt limit next).Surely w p := by
  rintro l b w' (_ | _ | ⟨hv, hnext⟩)
  exact h _ _ hv _ _ _ hnext

theorem surely_ask {a : Action} {p : List Deed → a.Answer → World → Prop}
    (h : ∀ r v, w.Answers a r v → p [⟨w, a, v⟩] r v) : (ask a).Surely w p :=
  surely_act fun r v hr => surely_done (h r v hr)

theorem Surely.imp {x : Flow α} {p' : List Deed → α → World → Prop} (h : x.Surely w p)
    (hp : ∀ l a w', p l a w' → p' l a w') : x.Surely w p' :=
  fun l a w' hx => hp l a w' (h l a w' hx)

theorem Surely.and {x : Flow α} {p' : List Deed → α → World → Prop} (h : x.Surely w p)
    (h' : x.Surely w p') : x.Surely w fun l a w' => p l a w' ∧ p' l a w' :=
  fun l a w' hx => ⟨h l a w' hx, h' l a w' hx⟩

theorem surely_tidy (x : Flow α) (hw : w.Tidy) : x.Surely w fun _ _ w' => w'.Tidy :=
  fun _ _ _ hx => hx.tidy hw

theorem Surely.bind {x : Flow α} {f : α → Flow β} (hx : x.Surely w p)
    (hf : ∀ l a w', p l a w' → (f a).Surely w' fun l' => q (l ++ l')) :
    (x.bind f).Surely w q := by
  induction x generalizing w p q with
  | done a => exact hf [] a w (hx [] a w (.done a w))
  | act a next ih =>
    refine surely_act fun r v hr => ih r (p := fun l => p (⟨w, a, v⟩ :: l)) ?_ ?_
    · exact fun l b w' hnext => hx _ b w' (.act hr hnext)
    · exact fun l b w' hb => hf _ b w' hb
  | wait wt limit next ih =>
    refine surely_wait fun b v hv => ih b (p := p) ?_ ?_
    · exact fun l c w' hnext => hx l c w' (.wait hv hnext)
    · exact fun l c w' hc => hf l c w' hc

end Flow

/-! ### Work -/

section Work

variable {ε α β : Type} {w : World}

/-- Whichever way some work goes, a statement holds of its deeds, of its result and of the world
that it leaves. -/
def WorkSurely (x : ExceptT ε Flow α) (w : World) (p : List Deed → Except ε α → World → Prop) :
    Prop := Flow.Surely x.run w p

variable {p : List Deed → Except ε α → World → Prop} {q : List Deed → Except ε β → World → Prop}

theorem workSurely_pure {a : α} (h : p [] (.ok a) w) :
    WorkSurely (pure a : ExceptT ε Flow α) w p := Flow.surely_done h

theorem workSurely_throw {e : ε} (h : p [] (.error e) w) :
    WorkSurely (throw e : ExceptT ε Flow α) w p := Flow.surely_done h

theorem WorkSurely.imp {x : ExceptT ε Flow α} {p' : List Deed → Except ε α → World → Prop}
    (h : WorkSurely x w p) (hp : ∀ l r w', p l r w' → p' l r w') : WorkSurely x w p' :=
  Flow.Surely.imp h hp

theorem WorkSurely.bind {x : ExceptT ε Flow α} {f : α → ExceptT ε Flow β} (hx : WorkSurely x w p)
    (hok : ∀ l a w', p l (.ok a) w' → WorkSurely (f a) w' fun l' => q (l ++ l'))
    (herr : ∀ l e w', p l (.error e) w' → q l (.error e) w') : WorkSurely (x >>= f) w q := by
  refine Flow.Surely.bind hx fun l r w' hr => ?_
  cases r with
  | ok a => exact hok l a w' hr
  | error e =>
    refine Flow.surely_done ?_
    rw [List.append_nil]
    exact herr l e w' hr

theorem workSurely_lift {x : Flow α} (h : x.Surely w fun l a w' => p l (.ok a) w') :
    WorkSurely (ExceptT.lift x : ExceptT ε Flow α) w p := by
  refine Flow.Surely.bind h fun l a w' ha => Flow.surely_done ?_
  rwa [List.append_nil]

/-- Work that goes on after a flow, which cannot fail. -/
theorem Flow.Surely.bind_lift {x : Flow α} {f : α → ExceptT ε Flow β}
    {p : List Deed → α → World → Prop} (hx : x.Surely w p)
    (hf : ∀ l a w', p l a w' → WorkSurely (f a) w' fun l' => q (l ++ l')) :
    WorkSurely (ExceptT.lift x >>= f) w q := by
  refine WorkSurely.bind (p := fun l r w' => ∃ a, r = .ok a ∧ p l a w')
    (workSurely_lift (hx.imp fun l a w' ha => ⟨a, rfl, ha⟩)) ?_ (by rintro _ _ _ ⟨_, ⟨⟩, -⟩)
  rintro l a w' ⟨_, ⟨⟩, ha⟩
  exact hf l a w' ha

/-- Work that goes on unless something is refused. -/
theorem workSurely_bind_ofRefusal {x : Except Refusal α} {f : α → Work β}
    {q : List Deed → Except Fault β → World → Prop}
    (hok : ∀ a, x = .ok a → WorkSurely (f a) w q)
    (herr : ∀ r, x = .error r → q [] (.error (Fault.ofRefusal r)) w) :
    WorkSurely (Work.ofRefusal x >>= f) w q := by
  cases x with
  | ok a => exact hok a rfl
  | error r => exact workSurely_throw (herr r rfl)

end Work

end Takeaway
