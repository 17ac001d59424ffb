import Takeaway.Engine.Basic

/-!
Jobs: what the engine makes of a message, apart from how its handlers are looked up. Main
statement: every message has exactly one flow, which rejects it or does the job it asks for.
-/

namespace Takeaway

/-- What a message asks of the engine. -/
inductive Job where
  | cover (n : OrderNumber)
  | restock (lines : List Item)
  | sweep
  | handOver (n : OrderNumber)
  | record (s : Status)
  | prepare (lines : List Item)

/-- A message that is not used: what it is counted under, and what is said of it. -/
structure Rejection where
  series : Series
  result : CommandResult

namespace Job

/-- The kind of a job. -/
def kind : Job → String
  | cover _ => Engine.coverKind
  | restock _ => Engine.restockKind
  | sweep => Engine.sweepKind
  | handOver _ => Engine.collectKind
  | record _ => Engine.recordKind
  | prepare _ => Engine.prepareKind

/-- Only the kitchen prepares items. -/
theorem kind_eq_prepare {j : Job} (h : j.kind = Engine.prepareKind) :
    ∃ lines, j = .prepare lines := by
  cases j with
  | prepare lines => exact ⟨lines, rfl⟩
  | _ => exact absurd h (by simp only [kind]; decide)

/-- The work of a job. -/
def work (e : Engine) : Job → Deadline → Work Unit
  | cover n, d => do let _ ← e.coverage.coverNew d n
  | restock lines, d => Engine.restockAll e.coverage d (Item.names lines)
  | sweep, d => do let _ ← e.coverage.sweep d
  | handOver n, d => Engine.handOver n d
  | record s, _ => (Flow.count (.statusUpdates s) : Work Unit)
  | prepare lines, _ => Kitchen.prepare e.menu e.settings.timeScale lines

/-- A job that is done under a deadline and counted. -/
def flow (e : Engine) (j : Job) : Flow CommandResult := do
  let d ← Flow.ask (.deadline e.settings.timeout)
  let fault := (Ending.finished (← (j.work e d).run)).fault?
  Flow.count (.commandTimes j.kind)
  Flow.count (.commands j.kind (if fault.isNone then .success else .failure))
  return ⟨j.kind, fault⟩

end Job

/-! ### The job of a message -/

/-- A message that goes nowhere. -/
def Rejection.unrouted (f : Fault) : Rejection := ⟨.unroutedEvents, Router.routeKind, some f⟩

/-- The job that was read off a message for a handler of some kind. -/
def Job.read (kind : String) (j : Except MessageFailure Job) : Except Rejection Job :=
  j.mapError fun f => ⟨.commands kind .rejected, kind, some (.ofMessage f)⟩

namespace Engine

variable (e : Engine) (m : Envelope)

/-- What a message asks of the engine. -/
def job : Except Rejection Job :=
  match m.event with
  | .error (.unknownEvent tag) => .error (.unrouted (.noHandler tag))
  | .error f => .error (.unrouted (.ofMessage f))
  | .ok .orderPlaced => Job.read coverKind (Job.cover <$> m.orderNumber)
  | .ok .itemAdded => Job.read restockKind (Job.restock <$> m.decode Item.linesReader)
  | .ok .sweepRequested => .ok .sweep
  | .ok .orderCollected => Job.read collectKind (Job.handOver <$> m.orderNumber)
  | .ok .statusUpdated => Job.read recordKind do
    let s ← m.decode Status.updateReader
    let _ ← m.orderNumber
    return .record s
  | .ok .itemRequested =>
    if e.settings.kitchen then Job.read prepareKind do
      let _ ← m.orderNumber
      Job.prepare <$> m.decode Item.linesReader
    else .error (.unrouted (.noHandler Event.itemRequested.tag))

/-- What the engine does about a message. -/
def response : Flow CommandResult :=
  match e.job m with
  | .error r => do Flow.count r.series; return r.result
  | .ok j => j.flow e

/-! ### Reading jobs off messages -/

variable {e m}

/-- A message that is not used leaves a fault behind. -/
theorem fault_of_job {x : Rejection} (h : e.job m = .error x) : x.result.fault ≠ none := by
  have hread : ∀ {kind : String} {j : Except MessageFailure Job},
      Job.read kind j = .error x → x.result.fault ≠ none := by
    intro kind j hj
    cases j with
    | error f => cases hj; simp
    | ok i => cases hj
  unfold job at h
  generalize m.event = event at h
  rcases event with f | event
  · cases f <;> cases h <;> simp [Rejection.unrouted]
  cases event with
  | sweepRequested => cases h
  | itemRequested =>
    dsimp only at h
    split at h
    · exact hread h
    · cases h
      simp [Rejection.unrouted]
  | _ => exact hread h

/-- The kitchen is asked for the lines of the message. -/
theorem decode_of_job {lines : List Item} (h : e.job m = .ok (.prepare lines)) :
    m.decode Item.linesReader = .ok lines := by
  have hread : ∀ {kind : String} {j : Except MessageFailure Job} {i : Job},
      Job.read kind j = .ok i → j = .ok i := by
    intro kind j i hj
    cases j with
    | error f => cases hj
    | ok i => cases hj; rfl
  unfold job at h
  generalize m.event = event, m.orderNumber = number, m.decode Item.linesReader = read at h ⊢
  rcases event with f | event
  · cases f <;> cases h
  cases event with
  | sweepRequested => cases h
  | itemRequested =>
    dsimp only at h
    split at h
    · have hj := hread h
      rcases number with f | n <;> rcases read with f | l <;> cases hj
      rfl
    · cases h
  | itemAdded => rcases read with f | l <;> cases hread h
  | statusUpdated =>
    generalize m.decode Status.updateReader = status at h
    rcases status with f | s <;> rcases number with f | n <;> cases hread h
  | _ => rcases number with f | n <;> cases hread h

/-- Messages that are made for a job ask for it. -/
theorem job_prepare {n : OrderNumber} {lines : List Item} (hk : e.settings.kitchen = true)
    (hev : m.event = .ok .itemRequested) (hn : m.orderNumber = .ok n)
    (hl : m.decode Item.linesReader = .ok lines) : e.job m = .ok (.prepare lines) := by
  unfold job
  rw [hev, hn, hl]
  exact if_pos hk

theorem job_restock {lines : List Item} (hev : m.event = .ok .itemAdded)
    (hl : m.decode Item.linesReader = .ok lines) : e.job m = .ok (.restock lines) := by
  unfold job
  rw [hev, hl]
  rfl

theorem job_sweep (hev : m.event = .ok .sweepRequested) : e.job m = .ok .sweep := by
  unfold job
  rw [hev]

theorem job_cover {n : OrderNumber} (hev : m.event = .ok .orderPlaced)
    (hn : m.orderNumber = .ok n) : e.job m = .ok (.cover n) := by
  unfold job
  rw [hev, hn]
  rfl

theorem job_handOver {n : OrderNumber} (hev : m.event = .ok .orderCollected)
    (hn : m.orderNumber = .ok n) : e.job m = .ok (.handOver n) := by
  unfold job
  rw [hev, hn]
  rfl

theorem job_record {n : OrderNumber} {s : Status} (hev : m.event = .ok .statusUpdated)
    (hs : m.decode Status.updateReader = .ok s) (hn : m.orderNumber = .ok n) :
    e.job m = .ok (.record s) := by
  unfold job
  rw [hev, hs, hn]
  rfl

variable (e m)

/-! ### The router of the engine -/

theorem handlers_eq (event : Event) : e.router.handlers event =
    match event with
    | .orderPlaced => [e.onOrderPlaced]
    | .itemAdded => [e.onItemAdded]
    | .sweepRequested => [e.onSweepRequested]
    | .orderCollected => [onOrderCollected]
    | .statusUpdated => [onStatusUpdated]
    | .itemRequested => if e.settings.kitchen then [e.onItemRequested] else [] := by
  unfold router
  dsimp only
  split <;> cases event <;> rfl

theorem router_timeout : e.router.timeout = e.settings.timeout := by
  unfold router
  dsimp only
  split <;> rfl

/-- A command whose value is left out ends as it did. -/
theorem of_discard {α : Type} (work : Deadline → Work α) :
    Command.of (fun d => do let _ ← work d) = Command.of work := by
  unfold Command.of
  congr 1
  funext d
  show ((work d).run.bind _).bind _ = (work d).run.bind _
  rw [Flow.bind_assoc]
  congr 1
  funext r
  cases r <;> rfl

/-- A handler that reads the work of a job off a message responds with that job. -/
theorem handle_of_build {h : Handler} {j : Except MessageFailure Job}
    (hk : ∀ i, j = .ok i → i.kind = h.kind)
    (hb : h.build m = (j.map fun i => Command.of (i.work e)).mapError .ofMessage) :
    e.router.handle h m =
      match Job.read h.kind j with
      | .error r => (do Flow.count r.series; return r.result)
      | .ok j => j.flow e := by
  unfold Router.handle
  rw [hb]
  cases j with
  | error f => rfl
  | ok i =>
    have hk := hk i rfl
    show (Flow.ask _).bind _ = (Flow.ask _).bind _
    rw [router_timeout]
    congr 1
    funext d
    show ((i.work e d).run.bind _).bind _ = (i.work e d).run.bind _
    rw [Flow.bind_assoc, ← hk]
    congr 1
    funext r
    cases r <;> rfl

/-- **What the engine does about a message is one flow**: its job, or its rejection. -/
theorem flows_eq : e.router.flows m = [e.response m] := by
  unfold Router.flows Router.resolve response job
  rcases hev : m.event with f | event
  · cases f <;> rfl
  · dsimp only
    rw [handlers_eq]
    cases event with
    | orderPlaced =>
      refine congrArg (fun x => [x]) (handle_of_build e m (h := e.onOrderPlaced) ?_ ?_)
      · rcases m.orderNumber with f | n <;> rintro i ⟨⟩; rfl
      · show (m.orderNumber.mapError Fault.ofMessage >>= fun n => _) = _
        rcases m.orderNumber with f | n
        · rfl
        · exact congrArg Except.ok (of_discard _).symm
    | itemAdded =>
      refine congrArg (fun x => [x]) (handle_of_build e m (h := e.onItemAdded) ?_ ?_)
      · rcases m.decode Item.linesReader with f | l <;> rintro i ⟨⟩; rfl
      · show ((m.decode Item.linesReader).mapError Fault.ofMessage >>= fun n => _) = _
        rcases m.decode Item.linesReader with f | l <;> rfl
    | sweepRequested =>
      refine congrArg (fun x => [x]) (handle_of_build e m (h := e.onSweepRequested)
        (j := .ok .sweep) ?_ ?_)
      · rintro i ⟨⟩; rfl
      · exact congrArg Except.ok (of_discard _).symm
    | orderCollected =>
      refine congrArg (fun x => [x]) (handle_of_build e m (h := onOrderCollected) ?_ ?_)
      · rcases m.orderNumber with f | n <;> rintro i ⟨⟩; rfl
      · show (m.orderNumber.mapError Fault.ofMessage >>= fun n => _) = _
        rcases m.orderNumber with f | n <;> rfl
    | statusUpdated =>
      refine congrArg (fun x => [x]) (handle_of_build e m (h := onStatusUpdated) ?_ ?_)
      · rcases m.decode Status.updateReader with f | s
        · rintro i ⟨⟩
        · rcases m.orderNumber with f | n <;> rintro i ⟨⟩; rfl
      · show ((m.decode Status.updateReader).mapError Fault.ofMessage >>= fun s => _) = _
        rcases m.decode Status.updateReader with f | s
        · rfl
        · show (m.orderNumber.mapError Fault.ofMessage >>= fun n => _) = _
          rcases m.orderNumber with f | n <;> rfl
    | itemRequested =>
      by_cases hk : e.settings.kitchen = true
      · simp only [if_pos hk]
        refine congrArg (fun x => [x]) (handle_of_build e m (h := e.onItemRequested) ?_ ?_)
        · rcases m.orderNumber with f | n
          · rintro i ⟨⟩
          · rcases m.decode Item.linesReader with f | l <;> rintro i ⟨⟩; rfl
        · show (m.orderNumber.mapError Fault.ofMessage >>= fun n => _) = _
          rcases m.orderNumber with f | n
          · rfl
          · show ((m.decode Item.linesReader).mapError Fault.ofMessage >>= fun l => _) = _
            rcases m.decode Item.linesReader with f | l <;> rfl
      · simp only [if_neg hk]
        rfl

end Engine

end Takeaway
