import Takeaway.Proofs.Flow.Ceasing
import Takeaway.Proofs.Routing
import Takeaway.Proofs.Sequence

/-!
Every message that reaches the engine is answered. Main statements: no command of the engine waits
without end; so whatever happens meanwhile, the results of a message are all collected in the end, and
handling it to its end in one run is one of the ways that it can take.
-/

namespace Takeaway

/-! ### Covering orders -/

namespace Coverage

variable (c : Coverage) (d : Deadline)

theorem ceases_allocate (item : String) (needed : Quantity) (tries : Nat) :
    CeasesWork (allocate item needed tries) := by
  induction tries with
  | zero => exact ceasesWork_pure _
  | succ tries ih =>
    unfold allocate
    refine CeasesWork.bind (ceasesWork_ask (.onHand item)) fun onHand => ?_
    dsimp only
    split
    · exact ceasesWork_pure _
    · refine CeasesWork.bind (ceasesWork_ask (.take item _)) fun r => ?_
      split
      · exact ceasesWork_pure _
      · exact ih
      · exact ceasesWork_throw _

theorem ceases_supply (item : String) (needed : Quantity) :
    CeasesWork (c.supply item needed) := by
  unfold supply
  refine CeasesWork.bind (ceasesWork_ofRefusal _) fun instant => ?_
  cases instant
  · exact ceases_allocate item needed tries
  · exact ceasesWork_pure _

theorem ceases_fill (items : List String) (o : Order) : CeasesWork (c.fill items o) := by
  induction items generalizing o with
  | nil => exact ceasesWork_pure _
  | cons item r ih =>
    unfold fill
    refine CeasesWork.bind (ceasesWork_ofRefusal _) fun missing => ?_
    dsimp only
    split
    · exact ih o
    · refine CeasesWork.bind (c.ceases_supply item _) fun a => ?_
      exact CeasesWork.bind (ih _) fun _ => ceasesWork_pure _

theorem ceases_requestAll (n : OrderNumber) (lines : List Item) :
    CeasesWork (c.requestAll d n lines) := by
  induction lines with
  | nil => exact ceasesWork_pure _
  | cons i r ih => exact CeasesWork.bind ((ceasesWork_request _ n i).within d) fun _ => ih

theorem ceases_cover (o : Order) (items : List String) : CeasesWork (c.cover d o items) := by
  unfold cover
  refine CeasesWork.bind (c.ceases_fill items o) fun ⟨new, packed, requests⟩ => ?_
  have hend : ∀ b, CeasesWork (do
      c.requestAll d o.number requests
      return (⟨o.number, packed, requests, new.status, b⟩ : Outcome)) := fun b =>
    CeasesWork.bind (c.ceases_requestAll d _ _) fun _ => ceasesWork_pure _
  have hrest : CeasesWork (do
      let changed := new.status != o.status
      if changed then notify (.statusUpdated o.number new.status (← Flow.ask .clock))
      c.requestAll d o.number requests
      return (⟨o.number, packed, requests, new.status, changed⟩ : Outcome)) := by
    dsimp only
    split
    · refine CeasesWork.bind (ceasesWork_ask .clock) fun time => ?_
      exact CeasesWork.bind (ceasesWork_lift (ceases_notify _)) fun _ => hend _
    · exact hend _
  dsimp only
  split
  · exact CeasesWork.bind (ceasesWork_call (ceases_saveOrder new) d) fun _ => hrest
  · exact hrest

theorem ceases_load (n : OrderNumber) : CeasesWork (load d n) := by
  refine CeasesWork.bind (ceasesWork_call (ceases_fetchOrder n) d) fun o => ?_
  cases o <;> trivial

theorem ceases_coverNew (n : OrderNumber) : CeasesWork (c.coverNew d n) := by
  refine CeasesWork.bind (ceases_load d n) fun o => ?_
  split
  · exact c.ceases_cover d o _
  · exact ceasesWork_pure _

theorem ceases_handOut (item : String) (orders : List Order) :
    CeasesWork (c.handOut d item orders) := by
  induction orders with
  | nil => exact ceasesWork_pure _
  | cons candidate r ih =>
    unfold handOut
    refine CeasesWork.bind (ceasesWork_ask (.onHand item)) fun onHand => ?_
    split
    · exact ceasesWork_pure _
    · refine CeasesWork.bind (ceases_load d candidate.number) fun o => ?_
      have hon : ∀ missing : Int, CeasesWork
          (if missing ≤ 0 then c.handOut d item r else do
            let outcome ← c.cover d o [item]
            return outcome :: (← c.handOut d item r)) := by
        intro missing
        split
        · exact ih
        · refine CeasesWork.bind (c.ceases_cover d o _) fun _ => ?_
          exact CeasesWork.bind ih fun _ => ceasesWork_pure _
      split
      · exact CeasesWork.bind (ceasesWork_ofRefusal _) hon
      · exact hon 0

theorem ceases_restock (item : String) : CeasesWork (c.restock d item) := by
  unfold restock
  refine CeasesWork.bind (ceasesWork_ofRefusal _) fun instant => ?_
  split
  · exact ceasesWork_pure _
  · exact CeasesWork.bind (ceasesWork_call (ceases_searchOrders _) d) fun orders =>
      c.ceases_handOut d item orders

theorem ceases_coverEach (orders : List Order) : (c.coverEach d orders).Ceases := by
  induction orders with
  | nil => trivial
  | cons o r ih =>
    unfold coverEach
    dsimp only
    split
    · exact ih
    · refine Flow.Ceases.bind (c.ceases_cover d o _) fun res => ?_
      cases res with
      | ok outcome => exact Flow.Ceases.bind ih fun _ => trivial
      | error f => exact Flow.Ceases.bind ih fun _ => trivial

theorem ceases_sweep : CeasesWork (c.sweep d) := by
  refine CeasesWork.bind (ceasesWork_call (ceases_searchOrders _) d) fun orders => ?_
  refine CeasesWork.bind (ceasesWork_lift (c.ceases_coverEach d orders)) fun ⟨outcomes, f⟩ => ?_
  cases f <;> trivial

end Coverage

/-! ### The kitchen -/

theorem Kitchen.ceases_cook (plan : List (Item × Span)) : (cook plan).Ceases := by
  induction plan with
  | nil => trivial
  | cons line r ih =>
    unfold cook
    dsimp only
    split
    · refine Flow.Ceases.bind (Flow.ceases_pause _) fun _ => ?_
      exact Flow.Ceases.bind (ceases_addUnits _ _) fun _ => ih
    · exact ih

theorem Kitchen.ceases_prepare (menu : Menu) (scale : Double) (lines : List Item) :
    CeasesWork (prepare menu scale lines) :=
  CeasesWork.bind (ceasesWork_ofRefusal _) fun plan => ceasesWork_lift (ceases_cook plan)

/-! ### Handlers -/

namespace Engine

variable (e : Engine) (m : Envelope)

theorem ceases_restockAll (c : Coverage) (d : Deadline) (items : List String) :
    CeasesWork (restockAll c d items) := by
  induction items with
  | nil => exact ceasesWork_pure _
  | cons item r ih =>
    unfold restockAll
    refine CeasesWork.bind (ceasesWork_lift (c.ceases_restock d item)) fun res => ?_
    split
    · exact ih
    · exact ih
    · exact ceasesWork_throw _

theorem ceases_handOver (n : OrderNumber) (d : Deadline) : CeasesWork (handOver n d) := by
  refine CeasesWork.bind (Coverage.ceases_load d n) fun o => ?_
  refine CeasesWork.bind (ceasesWork_ofRefusal _) fun new => ?_
  split
  · refine CeasesWork.bind (ceasesWork_call (ceases_saveOrder new) d) fun _ => ?_
    refine CeasesWork.bind (ceasesWork_ask .clock) fun time => ?_
    exact ceasesWork_lift (ceases_notify _)
  · exact ceasesWork_pure _

theorem exists_of_bind {α : Type} {x : Except Fault α} {f : α → Except Fault Command} {c : Command}
    (h : x >>= f = .ok c) : ∃ a, f a = .ok c := by
  cases x with
  | error f => cases h
  | ok a => exact ⟨a, h⟩

/-- **No command of the engine waits without end.** -/
theorem ceases_handlers {event : Event} {h : Handler} (hh : h ∈ e.router.handlers event) :
    h.Ceases m := by
  intro c hc d
  rw [handlers_eq] at hh
  cases event with
  | orderPlaced =>
    obtain rfl := List.mem_singleton.1 hh
    obtain ⟨n, ⟨⟩⟩ := exists_of_bind (x := m.orderNumber.mapError .ofMessage) hc
    exact Command.ceases_of (fun d => e.coverage.ceases_coverNew d n) d
  | itemAdded =>
    obtain rfl := List.mem_singleton.1 hh
    obtain ⟨lines, ⟨⟩⟩ := exists_of_bind (x := (m.decode Item.linesReader).mapError .ofMessage) hc
    exact Command.ceases_of (fun d => ceases_restockAll e.coverage d _) d
  | sweepRequested =>
    obtain rfl := List.mem_singleton.1 hh
    cases hc
    exact Command.ceases_of (fun d => e.coverage.ceases_sweep d) d
  | orderCollected =>
    obtain rfl := List.mem_singleton.1 hh
    obtain ⟨n, ⟨⟩⟩ := exists_of_bind (x := m.orderNumber.mapError .ofMessage) hc
    exact Command.ceases_of (fun d => ceases_handOver n d) d
  | statusUpdated =>
    obtain rfl := List.mem_singleton.1 hh
    obtain ⟨s, hs⟩ := exists_of_bind (x := (m.decode Status.updateReader).mapError .ofMessage) hc
    obtain ⟨n, ⟨⟩⟩ := exists_of_bind hs
    exact Command.ceases_of (fun _ => ceasesWork_lift (Flow.ceases_count _)) d
  | itemRequested =>
    dsimp only at hh
    split at hh
    · obtain rfl := List.mem_singleton.1 hh
      obtain ⟨n, hn⟩ := exists_of_bind (x := m.orderNumber.mapError .ofMessage) hc
      obtain ⟨lines, ⟨⟩⟩ := exists_of_bind hn
      exact Command.ceases_of (fun _ => Kitchen.ceases_prepare _ _ lines) d
    · exact absurd hh List.not_mem_nil

/-- No event has two handlers. -/
theorem length_handlers_le (event : Event) : (e.router.handlers event).length ≤ 1 := by
  rw [handlers_eq]
  cases event with
  | itemRequested =>
    dsimp only
    split
    · exact Nat.le_refl _
    · exact Nat.zero_le _
  | _ => exact Nat.le_refl _

end Engine

/-! ### Runs -/

section Runs

open World (InOrder)

variable {e : Engine} {w : World}

theorem World.InOrder.operation (horder : w.InOrder) (op : Operation) : (op.run e w).InOrder := by
  have hleft : ∀ {ε α : Type} (x : ExceptT ε Flow α), (Work.left x w).InOrder := fun x =>
    horder.run .first x.run
  cases op with
  | place customer items => exact hleft (e.place customer items)
  | addInventory item q => exact hleft (e.addInventory item q)
  | collect n => exact hleft (e.collect n)
  | requestSweep => exact hleft e.requestSweep
  | handle m =>
    show (e.handle m w).2.InOrder
    rw [Engine.handle_eq, Flow.runEach_one]
    exact horder.run .inTurn (e.response m)
  | switchStore answers => exact horder
  | switchBroker isUp => exact horder
  | failSends count => exact horder
  | rest wait limit => exact horder.await .first wait limit
  | settle => exact horder.settle

theorem World.inOrder_after (e : Engine) (ops : List Operation) : (e.after ops).InOrder := by
  unfold Engine.after Engine.runFrom
  induction ops using List.reverseRecOn with
  | nil => exact List.Pairwise.nil
  | append_singleton ops op ih =>
    rw [List.foldl_append]
    exact ih.operation op

namespace Engine

/-- **Every message is answered in the end**, in whichever order things happen, after any run; and
handling it to its end before anything else is one of the ways that it can take. -/
theorem surelyReturns_after (e : Engine) (ops : List Operation) (m : Envelope) {horizon : Nat}
    (hdeadline : ((e.after ops).deadline e.settings.timeout).tick ≤ horizon) :
    e.router.SurelyReturns horizon m (e.after ops) ∧
      ∃ f, e.router.Returns horizon m (e.after ops) f ∧
        f.results = (e.handle m (e.after ops)).1 ∧ f.world = e.handled m (e.after ops) := by
  have hceases : ∀ event, m.event = .ok event → ∀ h ∈ e.router.handlers event, h.Ceases m :=
    fun _ _ _ hh => e.ceases_handlers m hh
  rw [← router_timeout] at hdeadline
  exact ⟨Router.surelyReturns hceases, Router.returns_route hceases
    (fun event _ => e.length_handlers_le event) (World.inOrder_after e ops) hdeadline⟩

end Engine

end Runs

end Takeaway
