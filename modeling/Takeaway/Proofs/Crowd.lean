import Takeaway.Proofs.Engine.Fair
import Takeaway.Proofs.World.Backed
import Mathlib.Logic.Relation

/-!
Any number of activities at once. Each is a flow, and between any two actions of one of them
others may act, calls of the store and attempts to send may fail, and time may pass. Main
statement: whatever the order of steps, no order is packed beyond what it asks for, and no unit is
handed out twice.
-/

namespace Takeaway

/-- Activities in progress, in the world that they share. -/
structure Crowd where
  world : World
  running : List (Flow Unit)
  /-- The units of each item that were ever handed to the stock. -/
  added : String → Nat

namespace Engine

variable (e : Engine)

/-- Activities that may begin: the handling of any message, and every request from outside. -/
inductive Begins : Flow Unit → Prop
  | message (m : Envelope) (x : Flow CommandResult) :
      x ∈ e.router.flows m → Begins (x.bind fun _ => .done ())
  | place (customer : CustomerId) (items : List Item) :
      Begins ((e.place customer items).run.bind fun _ => .done ())
  | addInventory (item : String) (q : Quantity) :
      Begins ((e.addInventory item q).run.bind fun _ => .done ())
  | collect (n : OrderNumber) : Begins ((e.collect n).run.bind fun _ => .done ())
  | requestSweep : Begins (e.requestSweep.run.bind fun _ => .done ())

/-- One step of a crowd: an activity begins, one of them acts, a wait of one of them is over, or
something happens that touches neither the stored orders nor the stock. -/
inductive Advances : Crowd → Crowd → Prop
  | begins {w : World} {l : List (Flow Unit)} {added : String → Nat} {x : Flow Unit} :
      e.Begins x → Advances ⟨w, l, added⟩ ⟨w, x :: l, added⟩
  | acts {w w' : World} {l₁ l₂ : List (Flow Unit)} {added : String → Nat} {a : Action}
      {next : a.Answer → Flow Unit} {r : a.Answer} : w.Answers a r w' →
      Advances ⟨w, l₁ ++ .act a next :: l₂, added⟩ ⟨w', l₁ ++ next r :: l₂, added + a.brought⟩
  | goesOn {w : World} {l₁ l₂ : List (Flow Unit)} {added : String → Nat} {wt : Wait}
      {limit : Option Nat} {next : Bool → Flow Unit} {reached : Bool} :
      reached = true ∨ limit.isSome = true →
      Advances ⟨w, l₁ ++ .wait wt limit next :: l₂, added⟩ ⟨w, l₁ ++ next reached :: l₂, added⟩
  | elsewhere {w w' : World} {l : List (Flow Unit)} {added : String → Nat} :
      w'.orders = w.orders → w'.store.store.last = w.store.store.last →
      w'.store.frozen = w.store.frozen → w'.stock = w.stock →
      Advances ⟨w, l, added⟩ ⟨w', l, added⟩

/-- The crowd in which nothing has happened yet. -/
def crowd : Crowd := ⟨e.start, [], fun _ => 0⟩

end Engine

/-! ### What every step keeps -/

/-- The orders are backed by what was taken for them, every activity is fair, and no more units are
about than were handed to the stock. -/
structure Crowd.Sane (m : Menu) (g : Takings) (c : Crowd) : Prop where
  backed : c.world.Backed m g
  fair : ∀ x ∈ c.running, x.Fair m g fun _ _ => True
  accounted : c.world.Accounted m g c.added

namespace Engine

variable {e : Engine}

theorem fair_begins {x : Flow Unit} (hx : e.Begins x) (g : Takings) :
    x.Fair e.menu g fun _ _ => True := by
  have hend : ∀ {α : Type} {y : Flow α} {p : α → Takings → Prop}, y.Fair e.menu g p →
      (y.bind fun _ => .done ()).Fair e.menu g fun _ _ => True := fun hy =>
    Flow.Fair.bind hy fun _ _ _ _ => trivial
  cases hx with
  | message m x hx =>
    rw [flows_eq, List.mem_singleton] at hx
    subst hx
    exact hend (e.fair_response m)
  | place customer items => exact hend (e.fair_place customer items)
  | addInventory item q => exact hend (e.fair_addInventory item q)
  | collect n => exact hend (e.fair_collect n)
  | requestSweep => exact hend e.fair_requestSweep

theorem sane_crowd : e.crowd.Sane e.menu 0 where
  backed := ⟨(by rintro n o ⟨⟩), rfl⟩
  fair x hx := by cases hx
  accounted item _ ns := by
    show 0 + ∑ n ∈ ns, 0 ≤ 0
    simp

/-- A step leaves a crowd sane, with takings that have at most grown. -/
theorem sane_of_advances {c c' : Crowd} {g : Takings} (h : c.Sane e.menu g)
    (hstep : e.Advances c c') : ∃ g', c'.Sane e.menu g' := by
  have hmono : ∀ {x : Flow Unit} {g' : Takings}, g ≤ g' → x ∈ c.running →
      x.Fair e.menu g' fun _ _ => True := fun hg hx =>
    Flow.Fair.mono (h.fair _ hx) (fun _ _ _ _ _ => trivial) hg
  cases hstep with
  | begins hx =>
    refine ⟨g, h.backed, fun y hy => ?_, h.accounted⟩
    rcases List.mem_cons.1 hy with rfl | hy
    · exact fair_begins hx g
    · exact h.fair y hy
  | @acts w w' l₁ l₂ added a next r hr =>
    obtain ⟨hpermits, n, hnext⟩ := h.fair (.act a next) (by simp)
    obtain ⟨hrelies, hbacked⟩ := h.backed.answers hpermits hr n
    refine ⟨_, hbacked, fun y hy => ?_, World.accounted_answers h.accounted hr n⟩
    -- the others keep to what they are asked for although more was taken meanwhile
    have hothers : ∀ x ∈ l₁ ++ l₂, x.Fair e.menu (a.credit n g r) fun _ _ => True := by
      intro x hx
      refine hmono (a.le_credit n g r) ?_
      rcases List.mem_append.1 hx with hx | hx
      · exact List.mem_append_left _ hx
      · exact List.mem_append_right _ (List.mem_cons_of_mem _ hx)
    rcases List.mem_append.1 hy with hy | hy
    · exact hothers y (List.mem_append_left _ hy)
    · rcases List.mem_cons.1 hy with rfl | hy
      · exact hnext g le_rfl r hrelies
      · exact hothers y (List.mem_append_right _ hy)
  | @goesOn w l₁ l₂ added wt limit next reached _ =>
    have hwait := h.fair (.wait wt limit next) (by simp)
    refine ⟨g, h.backed, fun y hy => ?_, h.accounted⟩
    rcases List.mem_append.1 hy with hy | hy
    · exact h.fair y (List.mem_append_left _ hy)
    · rcases List.mem_cons.1 hy with rfl | hy
      · exact hwait reached g le_rfl
      · exact h.fair y (List.mem_append_right _ (List.mem_cons_of_mem _ hy))
  | elsewhere horders _ hfrozen hstock =>
    refine ⟨g, ⟨?_, hfrozen.trans h.backed.current⟩, h.fair, ?_⟩
    · rw [horders]; exact h.backed.orders
    · exact World.accounted_of_stock h.accounted hstock

theorem sane_of_reachable {c : Crowd} (h : Relation.ReflTransGen e.Advances e.crowd c) :
    ∃ g, c.Sane e.menu g := by
  induction h with
  | refl => exact ⟨_, sane_crowd⟩
  | tail _ hstep ih =>
    obtain ⟨g, hg⟩ := ih
    exact sane_of_advances hg hstep

/-! ### Main statement -/

/-- **No race over-packs an order or hands out a unit twice.** In whatever order the steps of any
number of activities come, and whichever calls fail: every stored order has packed no more of any
item than it asks for and nothing that it does not ask for, and of an item that is kept in stock
there are no more units in stock and packed than were ever handed to the stock. -/
theorem crowd_safe (e : Engine) {c : Crowd} (h : Relation.ReflTransGen e.Advances e.crowd c) :
    (∀ n o, c.world.orders.find? n = some o →
      (∀ name, o.packedOf name ≤ o.requestedOf name) ∧
        ∀ i ∈ o.packed, o.requests i.name = true) ∧
      ∀ item, e.menu.isInstant item = .ok false →
        c.world.onHand item + c.world.packed item ≤ c.added item := by
  obtain ⟨g, hg⟩ := sane_of_reachable h
  refine ⟨fun n o ho => ?_, fun item hitem => ?_⟩
  · have hsound := (hg.backed.orders n o ho).1.sound
    exact ⟨hsound.within, fun i hi => hsound.requests_of_mem_packed hi⟩
  · have hpacked : c.world.packed item ≤ ∑ n ∈ c.world.orders.keys.toFinset, g n item := by
      refine Index.total_le_sum_keys fun n o ho => ?_
      obtain ⟨hb, rfl⟩ := hg.backed.orders n o ho
      exact hb.taken item hitem
    have := hg.accounted item hitem c.world.orders.keys.toFinset
    omega

/-! ### Schedules -/

/-- What may begin. -/
inductive Beginning where
  | message (m : Envelope)
  | place (customer : CustomerId) (items : List Item)
  | addInventory (item : String) (q : Quantity)
  | collect (n : OrderNumber)
  | requestSweep

/-- What is chosen for a step. Activities are counted from the one that has begun last. -/
inductive Choice where
  | begins (b : Beginning)
  /-- An activity acts, or its wait is over. -/
  | goesOn (i : Nat)
  /-- The call that an activity makes fails, or its wait is given up. -/
  | fails (i : Nat)

/-- The activity that begins. -/
def Beginning.flow (e : Engine) : Beginning → Flow Unit
  | message m => (e.response m).bind fun _ => .done ()
  | place customer items => (e.place customer items).run.bind fun _ => .done ()
  | addInventory item q => (e.addInventory item q).run.bind fun _ => .done ()
  | collect n => (e.collect n).run.bind fun _ => .done ()
  | requestSweep => e.requestSweep.run.bind fun _ => .done ()

theorem begins_flow (e : Engine) (b : Beginning) : e.Begins (b.flow e) := by
  cases b with
  | message m => exact .message m _ (by rw [flows_eq]; exact List.mem_singleton_self _)
  | place customer items => exact .place customer items
  | addInventory item q => exact .addInventory item q
  | collect n => exact .collect n
  | requestSweep => exact .requestSweep

/-- The answer to a call that has failed. -/
def failure? : (a : Action) → Option a.Answer
  | .nextNumber | .fetch _ | .search _ | .save _ => some (.error ⟨"store down"⟩)
  | .send _ => some (.error (.transport "broker down"))
  | _ => none

theorem answers_failure {w : World} {a : Action} {r : a.Answer} (h : failure? a = some r) :
    w.Answers a r w := by
  cases a <;> cases h
  · exact .noNumber _
  · exact .notFetched _ _
  · exact .notSearched _ _
  · exact .notSaved _ _
  · exact .notSent _ _

/-- A crowd in which one activity, among others, takes a step. -/
def goOn (c : Crowd) (l₁ l₂ : List (Flow Unit)) (failing : Bool) : Flow Unit → Option Crowd
  | .done _ => none
  | .act a next =>
    if failing then (failure? a).map fun r => ⟨c.world, l₁ ++ next r :: l₂, c.added + a.brought⟩
    else
      let (r, w) := c.world.perform a
      some ⟨w, l₁ ++ next r :: l₂, c.added + a.brought⟩
  | .wait _ limit next =>
    if failing && limit.isNone then none
    else some ⟨c.world, l₁ ++ next (!failing) :: l₂, c.added⟩

/-- The step that is chosen, if it can be taken. -/
def choose (e : Engine) (c : Crowd) : Choice → Option Crowd
  | .begins b => some { c with running := b.flow e :: c.running }
  | .goesOn i =>
    c.running[i]?.bind (goOn c (c.running.take i) (c.running.drop (i + 1)) false)
  | .fails i =>
    c.running[i]?.bind (goOn c (c.running.take i) (c.running.drop (i + 1)) true)

/-- A crowd after some steps, if they can be taken. -/
def play (e : Engine) : List Choice → Crowd → Option Crowd
  | [], c => some c
  | choice :: r, c => (e.choose c choice).bind (e.play r)

variable {c c' : Crowd}

theorem advances_of_goOn {l₁ l₂ : List (Flow Unit)} {failing : Bool} {x : Flow Unit}
    (hrunning : c.running = l₁ ++ x :: l₂) (h : goOn c l₁ l₂ failing x = some c') :
    e.Advances c c' := by
  obtain ⟨w, l, added⟩ := c
  obtain rfl : l = l₁ ++ x :: l₂ := hrunning
  cases x with
  | done a => cases h
  | act a next =>
    simp only [goOn] at h
    split at h
    · obtain ⟨r, hr, rfl⟩ := Option.map_eq_some_iff.1 h
      exact .acts (answers_failure hr)
    · cases h
      exact .acts (.performed a)
  | wait wt limit next =>
    simp only [goOn] at h
    split at h
    · cases h
    · next hwait =>
      cases h
      refine .goesOn ?_
      cases failing
      · exact .inl rfl
      · exact .inr (by simpa [Option.isSome_iff_ne_none] using hwait)

theorem advances_of_choose {choice : Choice} (h : e.choose c choice = some c') :
    e.Advances c c' := by
  have hsplit : ∀ {i : Nat} {x : Flow Unit}, c.running[i]? = some x →
      c.running = c.running.take i ++ x :: c.running.drop (i + 1) := by
    intro i x hx
    obtain ⟨hi, rfl⟩ := List.getElem?_eq_some_iff.1 hx
    rw [← List.drop_eq_getElem_cons hi, List.take_append_drop]
  cases choice with
  | begins b =>
    cases h
    exact .begins (e.begins_flow b)
  | goesOn i =>
    obtain ⟨x, hx, hgoes⟩ := Option.bind_eq_some_iff.1 h
    exact advances_of_goOn (hsplit hx) hgoes
  | fails i =>
    obtain ⟨x, hx, hgoes⟩ := Option.bind_eq_some_iff.1 h
    exact advances_of_goOn (hsplit hx) hgoes

/-- **What comes of a schedule can be reached.** -/
theorem reaches_of_play {choices : List Choice} (h : e.play choices c = some c') :
    Relation.ReflTransGen e.Advances c c' := by
  induction choices generalizing c with
  | nil =>
    cases h
    exact .refl
  | cons choice r ih =>
    obtain ⟨c₁, hfirst, hrest⟩ := Option.bind_eq_some_iff.1 h
    exact (ih hrest).head (advances_of_choose hfirst)

/-- Two of fries are ordered, and there is one in stock. The order is announced twice, and for each
announcement it is read before anything is written. The first pass takes the one, another is brought
in, and the second pass takes that. The first writes the order and fails to ask the kitchen for what
is left; then the second writes it too, knowing nothing of what the first has packed. -/
def race : List Choice :=
  let announced : Beginning := .message (.orderPlaced ⟨1⟩ (Timestamp.ofMillis 0))
  let goes (i steps : Nat) : List Choice := List.replicate steps (.goesOn i)
  [.begins (.addInventory "fries" .one)] ++ goes 0 5 ++
    [.begins (.place ⟨7⟩ [⟨"fries", ⟨2, by decide⟩⟩])] ++ goes 0 10 ++
    [.begins announced] ++ goes 0 4 ++ [.begins announced] ++ goes 0 4 ++ goes 1 2 ++
    [.begins (.addInventory "fries" .one)] ++ goes 0 5 ++ goes 1 2 ++
    goes 2 8 ++ [.fails 2] ++ goes 1 3

/-- Of two fries that were brought in, both were taken for the same order and one is packed: the race
has lost the other, and no more than that. -/
theorem crowd_safe_of_race : ∃ c : Crowd,
    Relation.ReflTransGen (Engine.Advances {}) (Engine.crowd {}) c ∧
      Engine.play {} race (Engine.crowd {}) = some c ∧
      (∃ o, c.world.orders.find? ⟨1⟩ = some o ∧ o.requestedOf "fries" = 2 ∧
        o.packedOf "fries" = 1 ∧ ∀ name, o.packedOf name ≤ o.requestedOf name) ∧
      c.world.onHand "fries" = 0 ∧ c.world.packed "fries" = 1 ∧ c.added "fries" = 2 ∧
      c.world.onHand "fries" + c.world.packed "fries" ≤ c.added "fries" := by
  have hplayed : ((Engine.play {} race (Engine.crowd {})).map fun c =>
      ((c.world.orders.find? ⟨1⟩).map fun o => (o.requestedOf "fries", o.packedOf "fries"),
        c.world.onHand "fries", c.world.packed "fries", c.added "fries")) =
      some (some (2, 1), 0, 1, 2) := by
    decide +kernel
  obtain ⟨c, hc, hfacts⟩ := Option.map_eq_some_iff.1 hplayed
  simp only [Prod.mk.injEq] at hfacts
  obtain ⟨horder, hon, hpacked, hadded⟩ := hfacts
  obtain ⟨o, ho, hfries⟩ := Option.map_eq_some_iff.1 horder
  obtain ⟨hrequested, hone⟩ := Prod.mk.inj hfries
  have hreach : Relation.ReflTransGen (Engine.Advances {}) (Engine.crowd {}) c := reaches_of_play hc
  obtain ⟨horders, hstock⟩ := crowd_safe {} hreach
  exact ⟨c, hreach, hc, ⟨o, ho, hrequested, hone, (horders ⟨1⟩ o ho).1⟩, hon, hpacked, hadded,
    hstock "fries" (by decide)⟩

end Engine

end Takeaway
