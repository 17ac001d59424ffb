import Takeaway.Proofs.Engine.Fair
import Takeaway.Proofs.Engine.Run

/-!
Sequential runs: operations of the engine, each finished before the next, with the parts switched
off and on between them. Main statements: every world that such a run reaches is tidy, and every
order in it is sound, so that an order is open exactly as long as it misses something.
-/

namespace Takeaway

/-- What can be done between two moments at which nothing is in progress. -/
inductive Operation where
  | place (customer : CustomerId) (items : List Item)
  | addInventory (item : String) (q : Quantity)
  | collect (n : OrderNumber)
  | requestSweep
  /-- Any message is handled, whether it was ever sent or not. -/
  | handle (m : Envelope)
  | switchStore (answers : Bool)
  | switchBroker (isUp : Bool)
  /-- Attempts to send are made to fail, that many. -/
  | failSends (count : Nat)
  /-- Time passes. -/
  | rest (wait : Wait) (limit : Option Nat)
  /-- Time passes until no notice is under way. -/
  | settle

namespace World

/-- The world with its store switched. -/
def switchStore (w : World) (answers : Bool) : World :=
  { w with store := { w.store with store := { w.store.store with answers := answers } } }

/-- The world with its broker switched. -/
def switchBroker (w : World) (isUp : Bool) : World :=
  { w with broker := { w.broker with isUp := isUp } }

/-- The world in which some attempts to send will fail. -/
def failSends (w : World) (count : Nat) : World :=
  { w with broker := { w.broker with failing := count } }

end World

/-- The result of some work done by itself. -/
def Work.result {ε α : Type} (x : ExceptT ε Flow α) (w : World) : Except ε α :=
  (x.run.run .first w).1

/-- The world that is left when some work was done by itself. -/
def Work.left {ε α : Type} (x : ExceptT ε Flow α) (w : World) : World := (x.run.run .first w).2

theorem WorkEnds.of_first {ε α : Type} {x : ExceptT ε Flow α} {w : World}
    {p : Except ε α → World → Prop} (h : WorkEnds .first x w p) :
    p (Work.result x w) (Work.left x w) := h

/-- The world that is left when a message was handled. -/
def Engine.handled (e : Engine) (m : Envelope) (w : World) : World := (e.handle m w).2

/-- The world that is left when a wait is over. -/
def World.rested (w : World) (wait : Wait) (limit : Option Nat) : World :=
  (w.await .first wait limit).2

/-- What an operation leaves behind. -/
def Operation.run (e : Engine) (w : World) : Operation → World
  | place customer items => Work.left (e.place customer items) w
  | addInventory item q => Work.left (e.addInventory item q) w
  | collect n => Work.left (e.collect n) w
  | requestSweep => Work.left e.requestSweep w
  | handle m => e.handled m w
  | switchStore answers => w.switchStore answers
  | switchBroker isUp => w.switchBroker isUp
  | failSends count => w.failSends count
  | rest wait limit => w.rested wait limit
  | settle => w.settle

/-- The world after some operations from a given one. -/
def Engine.runFrom (e : Engine) (w : World) (ops : List Operation) : World :=
  ops.foldl (fun w op => op.run e w) w

/-- The world after some operations from the start. -/
def Engine.after (e : Engine) (ops : List Operation) : World := e.runFrom e.start ops

/-! ### Handling a message -/

namespace Engine

variable (e : Engine) (m : Envelope) (w : World)

theorem handle_eq : e.handle m w = Flow.runEach [e.response m] w := by
  unfold handle Router.route
  rw [flows_eq]

theorem aside_handled : World.Aside 0 ((e.response m).run .inTurn w).2 (e.handled m w) := by
  unfold handled
  rw [handle_eq]
  exact Flow.aside_runEach_one _ w

/-- The one result of a message is that of its flow. -/
theorem handle_results {p : CommandResult → World → Prop}
    (h : (e.response m).Ends .inTurn w p) :
    ∃ r w₁, (e.handle m w).1 = [r] ∧ p r w₁ ∧ World.Aside 0 w₁ (e.handled m w) :=
  ⟨_, _, by rw [handle_eq, Flow.runEach_one], h, e.aside_handled m w⟩

variable {e m w}

/-- What a job comes to, but for counts and the clock, is what handling its message comes to. -/
theorem handled_of_job {j : Job} (hj : e.job m = .ok j)
    {p : Except Fault Unit → World → Prop} (h : ∀ d, WorkEnds .inTurn (j.work e d) w p) :
    ∃ res w₁, p res w₁ ∧ World.Aside 0 w₁ (e.handled m w) ∧
      (e.handle m w).1 = [⟨j.kind, (Ending.finished res).fault?⟩] := by
  obtain ⟨r, w₁, hr, hcase, hafter⟩ := e.handle_results m w <|
    ends_response (p := fun i res w' => i = j → p res w') fun i hi d => by
      obtain rfl := Except.ok.inj (hj.symm.trans hi)
      exact (h d).imp fun _ _ hp _ => hp
  rcases hcase with ⟨y, hy, -⟩ | ⟨i, hi, res, w₂, hp, ha, rfl⟩
  · rw [hj] at hy
    cases hy
  · obtain rfl := Except.ok.inj (hj.symm.trans hi)
    exact ⟨res, w₂, hp rfl, ha.trans_zero hafter, hr⟩

/-- A message that is rejected changes nothing but counts and the clock. -/
theorem handled_of_rejection {x : Rejection} (hx : e.job m = .error x) :
    World.Aside 0 w (e.handled m w) := by
  obtain ⟨r, w₁, -, hcase, hafter⟩ := e.handle_results m w <|
    ends_response (p := fun _ _ _ => False) fun i hi d => by
      rw [hx] at hi
      cases hi
  rcases hcase with ⟨y, -, -, ha⟩ | ⟨i, hi, -⟩
  · exact ha.trans_zero hafter
  · rw [hx] at hi
    cases hi

end Engine

/-! ### Tidy worlds -/

variable {e : Engine} {w : World}

theorem World.tidy_start (e : Engine) : e.start.Tidy where
  script := rfl
  frozen := rfl
  announces := rfl
  records := rfl
  numbered n o h := by cases h

theorem World.Tidy.left {ε α : Type} (h : w.Tidy) (x : ExceptT ε Flow α) :
    (Work.left x w).Tidy := Flow.run_tidy .first x.run h

theorem World.Tidy.switchStore (h : w.Tidy) (answers : Bool) : (w.switchStore answers).Tidy :=
  ⟨h.script, h.frozen, h.announces, h.records, h.numbered⟩

theorem World.Tidy.switchBroker (h : w.Tidy) (isUp : Bool) : (w.switchBroker isUp).Tidy :=
  ⟨h.script, h.frozen, h.announces, h.records, h.numbered⟩

theorem World.Tidy.failSends (h : w.Tidy) (count : Nat) : (w.failSends count).Tidy :=
  ⟨h.script, h.frozen, h.announces, h.records, h.numbered⟩

theorem World.Tidy.operation (h : w.Tidy) (op : Operation) : (op.run e w).Tidy := by
  cases op with
  | place customer items => exact h.left _
  | addInventory item q => exact h.left _
  | collect n => exact h.left _
  | requestSweep => exact h.left _
  | handle m => exact (Flow.run_tidy .inTurn _ h).aside (e.aside_handled m w)
  | switchStore answers => exact h.switchStore answers
  | switchBroker isUp => exact h.switchBroker isUp
  | failSends count => exact h.failSends count
  | rest wait limit => exact h.aside (w.aside_await .first wait limit)
  | settle => exact h.aside (w.aside_passWhile _)

theorem World.tidy_after (e : Engine) (ops : List Operation) : (e.after ops).Tidy := by
  unfold Engine.after Engine.runFrom
  induction ops using List.reverseRecOn with
  | nil => exact World.tidy_start e
  | append_singleton ops op ih =>
    rw [List.foldl_append]
    exact ih.operation op

/-! ### Sound orders -/

/-- Whatever an operation does, it leaves the stored orders backed. -/
theorem World.Backed.operation {g : Takings} (h : w.Backed e.menu g) (op : Operation) :
    ∃ g', (op.run e w).Backed e.menu g' := by
  have hleft : ∀ {ε α : Type} {x : ExceptT ε Flow α} {p : α → Takings → Prop},
      FairWork e.menu x g p → ∃ g', (Work.left x w).Backed e.menu g' := fun hx => by
    obtain ⟨g', -, hb, -⟩ := Flow.Fair.run .first hx h
    exact ⟨g', hb⟩
  cases op with
  | place customer items => exact hleft (e.fair_place customer items)
  | addInventory item q => exact hleft (e.fair_addInventory item q)
  | collect n => exact hleft (e.fair_collect n)
  | requestSweep => exact hleft e.fair_requestSweep
  | handle m =>
    obtain ⟨g', -, hb, -⟩ := (e.fair_response m).run .inTurn h
    exact ⟨g', hb.of_store (e.aside_handled m w).store⟩
  | switchStore answers => exact ⟨g, h.orders, h.current⟩
  | switchBroker isUp => exact ⟨g, h.of_store rfl⟩
  | failSends count => exact ⟨g, h.of_store rfl⟩
  | rest wait limit => exact ⟨g, h.of_store (w.aside_await .first wait limit).store⟩
  | settle => exact ⟨g, h.of_store (w.aside_passWhile _).store⟩

theorem World.backed_after (e : Engine) (ops : List Operation) :
    ∃ g, (e.after ops).Backed e.menu g := by
  unfold Engine.after Engine.runFrom
  induction ops using List.reverseRecOn with
  | nil => exact ⟨0, (by rintro n o ⟨⟩), rfl⟩
  | append_singleton ops op ih =>
    rw [List.foldl_append]
    obtain ⟨g, hg⟩ := ih
    exact hg.operation op

theorem World.sound_after (e : Engine) (ops : List Operation) : (e.after ops).Sound e.menu := by
  obtain ⟨g, hg⟩ := World.backed_after e ops
  exact hg.sound

/-! ### Main statement -/

namespace Engine

/-- **Every stored order is kept straight.** Whatever operations came before, an order has packed
nothing that it does not ask for and no more of any item than it asks for; its status says how
much of it is packed; and it is among the orders that wait for units exactly as long as it misses
some. -/
theorem stored_order (e : Engine) (ops : List Operation) {n : OrderNumber} {o : Order}
    (h : (e.after ops).orders.find? n = some o) :
    (∀ i ∈ o.packed, o.requests i.name = true) ∧
      (∀ name, o.packedOf name ≤ o.requestedOf name) ∧
      (o.status = .requested ↔ o.packedUnits = 0) ∧
      (o.status = .inProgress ↔ 0 < o.packedUnits ∧ o.packedUnits < o.requestedUnits) ∧
      ((o.status = .ready ∨ o.status = .collected) ↔ o.packedUnits = o.requestedUnits) ∧
      (o.missingItems = [] ↔ o.status = .ready ∨ o.status = .collected) ∧
      (OrderFilter.waiting.accepts o = true ↔ ∃ name, 0 < o.missing name) ∧
      o.derivedStatus ≠ .requested := by
  have hs := (World.sound_after e ops n o h).1
  refine ⟨fun i hi => hs.requests_of_mem_packed hi, hs.within, hs.requested_iff, hs.inProgress_iff,
    hs.finished_iff, ?_, ?_, ?_⟩
  · rw [hs.missingItems_eq_nil_iff, hs.finished_iff]
  · have hopen : OrderFilter.waiting.accepts o = o.status.isOpen := by
      unfold OrderFilter.accepts OrderFilter.waiting
      cases o.status <;> rfl
    rw [hopen, hs.isOpen_iff_short]
    refine exists_congr fun name => ?_
    rw [hs.missing_eq, Int.natCast_pos]
  · have := hs.packedUnits_le
    unfold Order.derivedStatus
    split
    · simp
    · rw [if_pos (by omega)]
      simp

/-- An order for two items, one of them instant, after its placement was handled. -/
theorem stored_order_begun : ∃ o,
    (Engine.after {} [.place ⟨7⟩ [⟨"water", Quantity.one⟩, ⟨"fries", Quantity.one⟩],
      .handle (.orderPlaced ⟨1⟩ (Timestamp.ofMillis 0))]).orders.find? ⟨1⟩ = some o ∧
      o.status = .inProgress ∧ 0 < o.packedUnits ∧ o.packedUnits < o.requestedUnits ∧
      ∃ name, 0 < o.missing name := by
  have hstatus : ((Engine.after {} [.place ⟨7⟩ [⟨"water", Quantity.one⟩, ⟨"fries", Quantity.one⟩],
      .handle (.orderPlaced ⟨1⟩ (Timestamp.ofMillis 0))]).orders.find? ⟨1⟩).map (·.status) =
      some .inProgress := by decide +kernel
  obtain ⟨o, ho, hs⟩ := Option.map_eq_some_iff.1 hstatus
  obtain ⟨-, -, -, hprogress, -, -, hopen, -⟩ := stored_order {} _ ho
  obtain ⟨h₁, h₂⟩ := hprogress.1 hs
  refine ⟨o, ho, hs, h₁, h₂, hopen.1 ?_⟩
  unfold OrderFilter.accepts OrderFilter.waiting
  rw [hs]
  rfl

end Engine

end Takeaway
