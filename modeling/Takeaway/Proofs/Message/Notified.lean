import Takeaway.Proofs.Flow.Quiet
import Takeaway.Proofs.Message.Mirror
import Takeaway.Proofs.World.Room
import Takeaway.Work

/-!
Messages that are handed over one after the other. Main statement: handing over some messages as
soon as there is room for each is a run of the mailroom in which just these are handed in; so when
all notices have settled, each of the messages was sent once or counted once as failed.
-/

namespace Takeaway

namespace Mailroom

variable {m m' : Mailroom} {w w₀ : World} {p : Parcel}

/-! ### A caller -/

/-- The caller with this parcel waits or was admitted, and nobody else. -/
def Serves (p : Parcel) (m : Mailroom) : Prop :=
  m.front = ([.caller p], [], 0) ∨ m.front = ([], [p], 0)

theorem idle_start (w : World) : (start w).Idle := rfl

/-- The caller is admitted at once, or waits. -/
theorem Idle.serves_call (h : m.Idle) (e : Envelope) : (m.call e).Serves ⟨m.calls.length, e⟩ := by
  obtain ⟨hline, hadmitted, hdrained⟩ := front_eq_iff.1 h
  unfold call
  dsimp only
  split
  · exact .inr (by simp [front, hline, hadmitted, hdrained])
  · exact .inl (by simp [front, hline, hadmitted, hdrained])

/-- What a place that is given back keeps, tasks that go on by themselves keep. -/
theorem Runs.front {P : List Waiter × List Parcel × Nat → Prop}
    (hgive : ∀ m : Mailroom, P m.front → P m.giveOne.front) (hruns : m.Runs m') (h : P m.front) :
    P m'.front := by
  obtain ⟨moves, hown, rfl⟩ := hruns
  induction moves generalizing m with
  | nil => exact h
  | cons x moves ih =>
    rw [List.forall_mem_cons] at hown
    refine ih ?_ hown.2
    cases hown.1 with
    | pass ticks => exact h
    | step k =>
      simp only [move, step]
      split
      · exact h
      · split
        · exact hgive { m with tasks := m.tasks.eraseIdx k } h
        · exact h
        · exact h

theorem Idle.runs (h : m.Idle) (hruns : m.Runs m') : m'.Idle := by
  refine hruns.front (P := fun f => f = ([], [], 0)) (fun m hm => ?_) h
  obtain ⟨hline, hrest⟩ := Prod.mk.inj hm
  unfold giveOne
  rw [hline]
  exact Prod.ext rfl hrest

theorem Serves.runs (h : m.Serves p) (hruns : m.Runs m') : m'.Serves p := by
  refine hruns.front (P := fun f => f = ([.caller p], [], 0) ∨ f = ([], [p], 0))
    (fun m hm => .inr ?_) h
  unfold giveOne
  rcases hm with hm | hm <;> obtain ⟨hline, hrest⟩ := Prod.mk.inj hm <;> rw [hline]
  · obtain ⟨hadmitted, hdrained⟩ := Prod.mk.inj hrest
    simp [front, hadmitted, hdrained]
  · exact Prod.ext rfl hrest

/-- In a mailroom that stands for a world, there are as many tasks as notices under way. -/
theorem Mirrors.length_tasks (h : m.Mirrors 0 w) : m.tasks.length = w.notices.underWay := by
  have hcard := congrArg Multiset.card h.flows
  simpa [Mailroom.flows, Notices.flows, Notices.underWay] using hcard

/-- There is room for a task where there is room for a notice. -/
theorem Mirrors.tasks_lt (h : m.Mirrors 0 w) (hroom : w.notices.hasRoom = true) :
    m.tasks.length < m.places := by
  have hlimit : m.places = max w.notices.limit 1 := by
    unfold places
    rw [h.world]
    rfl
  rw [h.length_tasks, hlimit]
  exact of_decide_eq_true hroom

/-- When there is room, the caller does not wait. -/
theorem Serves.admitted (h : m.Serves p) (hkeeps : m.Keeps w₀ 0)
    (hroom : m.tasks.length < m.places) : m.front = ([], [p], 0) := by
  refine h.resolve_left fun hfront => ?_
  obtain ⟨hline, hadmitted, hdrained⟩ := front_eq_iff.1 hfront
  have hplaces := hkeeps.places
  have hfree := hkeeps.full (by simp [hline])
  simp only [kept, hline, hadmitted, hfree, hdrained, Waiter.keptBy_cons, Waiter.keptBy_nil,
    Waiter.kept, List.length_nil] at hplaces
  omega

/-- An admitted parcel becomes a notice that is ready. -/
theorem Mirrors.begins (h : m.Mirrors 0 w) (hfront : m.front = ([], [p], 0)) :
    (m.begins 0).Idle ∧ (m.begins 0).Mirrors 0 (w.perform (.note p.envelope)).2 := by
  obtain ⟨hline, hadmitted, hdrained⟩ := front_eq_iff.1 hfront
  have hpolicy : m.world.notices.policy = w.notices.policy := by
    rw [h.world]
    rfl
  have hflows := h.flows
  unfold Mailroom.begins
  simp only [hadmitted, List.getElem?_cons_zero, hpolicy]
  refine ⟨by simp [Idle, front, hline, hdrained], h.world, ?_⟩
  simp only [Mailroom.flows, Notices.flows, World.perform, List.map_append, ← Multiset.coe_add,
    zero_add] at hflows ⊢
  rw [hflows, add_right_comm]
  rfl

/-! ### Handing over -/

theorem handedIn_of_runs (hruns : m.Runs m') :
    ∃ moves : List Move, m.after moves = m' ∧ moves.filterMap Move.handedIn? = [] := by
  obtain ⟨moves, hown, rfl⟩ := hruns
  refine ⟨moves, rfl, List.filterMap_eq_nil_iff.2 fun x hx => ?_⟩
  cases hown x hx <;> rfl

/-- **Handing over a message** as soon as there is room is a run in which it is handed in. -/
theorem exists_notify (hw : m.Mirrors 0 w) (hkeeps : m.Keeps w₀ 0) (hidle : m.Idle)
    (rank : World.Rank) (e : Envelope) :
    ∃ moves : List Move, moves.filterMap Move.handedIn? = [e] ∧ (m.after moves).Idle ∧
      (m.after moves).Mirrors 0 ((notify e).run rank w).2 := by
  have hcall : (m.call e).Mirrors 0 w := by
    unfold call
    dsimp only
    split <;> exact ⟨hw.world, hw.flows⟩
  obtain ⟨m₁, hruns, h₁⟩ := World.Shadowed.passForRoom w _ hcall
  have hserves := (hidle.serves_call e).runs hruns
  obtain ⟨own, rfl, hown⟩ := handedIn_of_runs hruns
  have hfront := hserves.admitted ((hkeeps.call e).after own) (h₁.tasks_lt w.hasRoom_passForRoom)
  have hafter : m.after (.call e :: (own ++ [.begins 0])) = ((m.call e).after own).begins 0 :=
    List.foldl_append
  refine ⟨.call e :: (own ++ [.begins 0]), ?_, hafter ▸ h₁.begins hfront⟩
  rw [List.filterMap_cons, List.filterMap_append, hown]
  rfl

/-- Handing over one message after the other. -/
theorem exists_notifyAll (hw : m.Mirrors 0 w) (hkeeps : m.Keeps w₀ 0) (hidle : m.Idle)
    (rank : World.Rank) (es : List Envelope) :
    ∃ moves : List Move, moves.filterMap Move.handedIn? = es ∧ (m.after moves).Idle ∧
      (m.after moves).Mirrors 0 ((es.forM notify).run rank w).2 := by
  induction es generalizing m w with
  | nil => exact ⟨[], rfl, hidle, hw⟩
  | cons e es ih =>
    obtain ⟨moves, hmoves, hidle₁, hw₁⟩ := exists_notify hw hkeeps hidle rank e
    obtain ⟨rest, hrest, hend⟩ := ih hw₁ (hkeeps.after moves) hidle₁
    refine ⟨moves ++ rest, by rw [List.filterMap_append, hmoves, hrest]; rfl, ?_⟩
    have hafter : m.after (moves ++ rest) = (m.after moves).after rest := List.foldl_append
    have hrun : ((e :: es).forM notify : Flow Unit) = (notify e).bind fun _ => es.forM notify := rfl
    rw [hafter, hrun, Flow.run_bind]
    exact hend

theorem mirrors_start (hw : w.Alone) : (start w).Mirrors 0 w := by
  constructor
  · unfold World.bare
    rw [← hw.ready, ← hw.asleep]
    rfl
  · unfold Notices.flows
    rw [hw.ready, hw.asleep]
    rfl

theorem envelopes_after (w : World) (moves : List Move) :
    ((start w).after moves).calls.map (·.envelope) = moves.filterMap Move.handedIn? := by
  rw [calls_after]
  exact List.ext_getElem (by simp [start]) fun i _ _ => by simp [start]

theorem Settled.perm (h : m.Settled w) (hnodup : m.calls.Nodup) :
    (m.sent ++ m.failed).Perm m.calls := by
  refine List.perm_iff_count.2 fun p => ?_
  rw [List.count_append, h.once, hnodup.count]

end Mailroom

/-- **All are settled** when messages were handed over one after the other and time has passed until
no notice is under way: each was sent once or counted once as failed. -/
theorem World.settled_of_notified {w : World} (hw : w.Alone) (rank : World.Rank)
    (es : List Envelope) :
    let w' := ((es.forM notify : Flow Unit).run rank w).2.settle
    ∃ sent failed : List Envelope, (sent ++ failed).Perm es ∧
      w'.broker.total = w.broker.total + sent.length ∧
      (∀ early, w.broker.Records early →
        w'.broker.Records (early ++ sent.map (Delivery.mk w.topic))) ∧
      w'.metrics.value .notificationsFailed =
        w.metrics.value .notificationsFailed + failed.length := by
  intro w'
  obtain ⟨moves, hmoves, hidle, hmirrors⟩ := Mailroom.exists_notifyAll (Mailroom.mirrors_start hw)
    (Mailroom.keeps_start w) (Mailroom.idle_start w) rank es
  obtain ⟨m, hruns, hm⟩ := World.Shadowed.settle _ _ hmirrors
  have hidle' := hidle.runs hruns
  obtain ⟨own, rfl, hown⟩ := Mailroom.handedIn_of_runs hruns
  have hafter : ((Mailroom.start w).after moves).after own =
      (Mailroom.start w).after (moves ++ own) := List.foldl_append.symm
  rw [hafter] at hm hidle'
  have hcalls := Mailroom.envelopes_after w (moves ++ own)
  rw [List.filterMap_append, hmoves, hown, List.append_nil] at hcalls
  have hkeeps := (Mailroom.keeps_start w).after (moves ++ own)
  have hnodup := Mailroom.nodup_calls_after w (moves ++ own)
  generalize (Mailroom.start w).after (moves ++ own) = m at hm hidle' hcalls hkeeps hnodup
  have htasks : m.tasks = [] := by
    obtain ⟨hready, hasleep⟩ := (((es.forM notify : Flow Unit).run rank w).2).settle_left
    have hlength := hm.length_tasks
    rw [Notices.underWay, hready, hasleep] at hlength
    exact List.eq_nil_of_length_eq_zero hlength
  have hsettled := Mailroom.settled_of_keeps hkeeps hnodup hidle'.calling htasks
  have hworld : m.world = w'.bare := hm.world
  have hperm := (hsettled.perm hnodup).map Parcel.envelope
  rw [hcalls, List.map_append] at hperm
  refine ⟨m.sent.map Parcel.envelope, m.failed.map Parcel.envelope, hperm, ?_,
    fun early hearly => ?_, ?_⟩
  · have htotal := hsettled.total
    rw [hworld] at htotal
    rw [List.length_map]
    exact htotal
  · have hrecord := hsettled.record early hearly
    rw [hworld] at hrecord
    rw [List.map_map]
    exact hrecord
  · have hfailures := hsettled.failures
    rw [hworld] at hfailures
    rw [List.length_map]
    exact hfailures

end Takeaway
