import Takeaway.Proofs.Desk
import Takeaway.Proofs.Engine.Job

/-!
Everything that the engine does is fair. Main statements: the flow of every message is fair, and
so are the requests from outside.
-/

namespace Takeaway

variable {m : Menu} {g : Takings}

/-! ### The kitchen -/

theorem fair_addUnits (item : String) (q : Quantity) :
    (addUnits item q).Fair m g fun _ _ => True := by
  unfold addUnits
  refine Flow.Fair.bind (p := fun _ _ => True) ⟨trivial, ⟨0⟩, fun _ _ _ _ => trivial⟩
    fun b g₁ _ _ => ?_
  cases b
  · trivial
  · exact Flow.Quiet.fair
      (Flow.Quiet.bind (Flow.quiet_ask rfl) fun _ => quiet_notify _) g₁

theorem Kitchen.fair_cook (plan : List (Item × Span)) :
    (cook plan).Fair m g fun _ _ => True := by
  induction plan generalizing g with
  | nil => trivial
  | cons line r ih =>
    obtain ⟨i, s⟩ := line
    unfold cook
    dsimp only
    split
    · refine Flow.Fair.bind (Flow.Quiet.fair (quiet_pause s) g) fun _ g₁ _ _ => ?_
      exact Flow.Fair.bind (fair_addUnits _ _) fun _ _ _ _ => ih
    · exact ih

theorem Kitchen.fair_prepare (scale : Double) (lines : List Item) :
    FairWork m (prepare m scale lines) g fun _ _ => True := by
  unfold prepare
  refine FairWork.bind (p := fun _ _ => True) (fairWork_ofRefusal fun _ _ => trivial)
    fun plan g₁ _ _ => ?_
  exact fairWork_lift (fair_cook plan)

/-! ### Jobs -/

namespace Engine

theorem fair_restockAll (c : Coverage) (d : Deadline) (items : List String) :
    FairWork c.menu (restockAll c d items) g fun _ _ => True := by
  induction items generalizing g with
  | nil => exact fairWork_pure trivial
  | cons item r ih =>
    unfold restockAll
    refine FairWork.bind (p := fun _ _ => True)
      (fairWork_lift (Flow.Fair.imp (c.fair_restock d item) fun _ _ _ _ => trivial))
      fun res g₁ _ _ => ?_
    split
    · exact ih
    · exact ih
    · exact fairWork_throw _

theorem fair_handOver (n : OrderNumber) (d : Deadline) :
    FairWork m (handOver n d) g fun _ _ => True := by
  unfold handOver
  refine FairWork.bind (Coverage.fair_load d n) fun o g₁ _ ho => ?_
  refine FairWork.bind (p := fun new g' => new.Backed m g')
    (fairWork_ofRefusal fun new hnew => ?_) fun new g₂ _ hb => ?_
  · obtain ⟨hs, hn, -, hp⟩ := ho.1.sound.collect hnew
    refine ⟨hs, fun i hi => ?_⟩
    unfold Order.packedOf
    rw [hp, hn]
    exact ho.1.taken i hi
  · split
    · refine FairWork.bind (FairWork.within (fairWork_ofStore (p := fun _ _ => True) ?_) d)
        fun _ g₃ _ _ => ?_
      · exact (fair_saveOrder hb).imp fun _ _ _ _ _ _ => trivial
      · exact QuietWork.fair (QuietWork.bind (quietWork_lift (Flow.quiet_ask rfl)) fun _ =>
          quietWork_lift (quiet_notify _)) g₃
    · exact fairWork_pure trivial

end Engine

variable (e : Engine)

theorem Job.fair_work (j : Job) (d : Deadline) :
    FairWork e.menu (j.work e d) g fun _ _ => True := by
  cases j with
  | cover n =>
    exact FairWork.bind (e.coverage.fair_coverNew d n) fun _ _ _ _ => fairWork_pure trivial
  | restock lines => exact Engine.fair_restockAll e.coverage d _
  | sweep => exact FairWork.bind (e.coverage.fair_sweep d) fun _ _ _ _ => fairWork_pure trivial
  | handOver n => exact Engine.fair_handOver n d
  | record s => exact fairWork_lift (Flow.Quiet.fair (quiet_count _) g)
  | prepare lines => exact Kitchen.fair_prepare _ _

theorem Job.fair_flow (j : Job) : (j.flow e).Fair e.menu g fun _ _ => True := by
  unfold Job.flow
  refine Flow.Fair.bind (Flow.Quiet.fair (Flow.quiet_ask rfl) g) fun d g₁ _ _ => ?_
  refine Flow.Fair.bind (Job.fair_work e j d) fun r g₂ _ _ => ?_
  exact Flow.Quiet.fair (Flow.Quiet.bind (quiet_count _) fun _ =>
    Flow.Quiet.bind (quiet_count _) fun _ => Flow.quiet_done _) g₂

namespace Engine

/-- **What the engine does about a message is fair.** -/
theorem fair_response (m : Envelope) : (e.response m).Fair e.menu g fun _ _ => True := by
  unfold response
  split
  · exact Flow.Quiet.fair (Flow.Quiet.bind (quiet_count _) fun _ => Flow.quiet_done _) g
  · exact Job.fair_flow e _

/-! ### Requests from outside -/

theorem fair_place (customer : CustomerId) (items : List Item) :
    FairWork e.menu (e.place customer items) g fun _ _ => True := by
  unfold place
  refine FairWork.bind (p := fun _ _ => True)
    (fairWork_mapError _ (Desk.fair_place customer)) fun o g₁ _ _ => ?_
  exact QuietWork.fair (quietWork_tell _ _ _) g₁

theorem fair_collect (n : OrderNumber) :
    FairWork e.menu (e.collect n) g fun _ _ => True := by
  unfold collect
  refine FairWork.bind (p := fun _ _ => True)
    (fairWork_mapError _ (Flow.Fair.imp (Desk.fair_require n) fun _ _ _ _ _ _ => trivial))
    fun o g₁ _ _ => ?_
  refine QuietWork.fair ?_ g₁
  split
  · exact QuietWork.bind (quietWork_throw _) fun _ => quietWork_tell _ _ _
  · exact quietWork_tell _ _ _

theorem fair_addInventory (item : String) (q : Quantity) :
    FairWork e.menu (e.addInventory item q) g fun _ _ => True := by
  unfold addInventory
  refine FairWork.bind (p := fun _ _ => True) (fairWork_ofRefusal fun _ _ => trivial)
    fun b g₁ _ _ => ?_
  dsimp only
  split
  · exact fairWork_throw _
  · split
    · exact fairWork_throw _
    · exact FairWork.bind (fairWork_lift (fair_addUnits item q)) fun _ g₂ _ _ =>
        fairWork_lift (Flow.Quiet.fair (Flow.quiet_ask rfl) g₂)

theorem fair_requestSweep : FairWork e.menu e.requestSweep g fun _ _ => True :=
  QuietWork.fair (QuietWork.bind (quietWork_lift (Flow.quiet_ask rfl)) fun _ =>
    quietWork_publish _ _) g

end Engine

end Takeaway
