import Takeaway.Http.Api
import Takeaway.Proofs.Engine.Failure

/-!
What answers to requests come to when nobody else is at work. Main statement: a request succeeds,
or something outside did not answer, or it is turned away and nothing was done; so the status
tells what became of the request.
-/

namespace Takeaway

open World (Steady)

variable {rank : World.Rank} {w w' w'' : World}

namespace Http

/-! ### Statuses -/

theorem Problem.status_of_outside {f : Fault} (h : f.IsOutside) :
    (Problem.fault f).status = 503 := by
  cases f <;> cases h <;> rfl

theorem Problem.status_of_validation {f : Fault} (h : f.category = .validation) :
    400 ≤ (Problem.fault f).status ∧ (Problem.fault f).status < 500 := by
  show 400 ≤ faultStatus f ∧ faultStatus f < 500
  cases f with
  | refused cause => cases cause <;> simp [faultStatus, Fault.category]
  | malformed | unknownItem | noHandler => simp [faultStatus, Fault.category]
  | insufficient | downstream | late | crashed => cases h

theorem readBody_status {α : Type} {read : Json.Reader α} {r : Request} {s : Nat}
    (h : readBody read r = .error s) : 400 ≤ s ∧ s < 500 := by
  unfold readBody at h
  split at h
  · split at h
    · cases h
      decide
    · split at h <;> cases h <;> decide
  · cases h
    decide

theorem readSegment_status {t : String} {s : Nat} (h : readSegment t = .error s) :
    400 ≤ s ∧ s < 500 := by
  unfold readSegment at h
  split at h <;> cases h
  decide

theorem readStatus_status {t : String} {s : Nat} (h : readStatus t = .error s) :
    400 ≤ s ∧ s < 500 := by
  unfold readStatus at h
  split at h <;> cases h
  decide

theorem endpoint_status {r : Request} {s : Nat} (h : endpoint r = .error s) : s < 500 := by
  unfold endpoint at h
  split at h
  · cases h
    decide
  split at h
  · cases h
    decide
  dsimp only at h
  split at h <;> cases h
  decide

/-! ### Replies -/

/-- The status of what is answered. -/
def statusOf : Except Problem Response → Nat
  | .ok response => response.status
  | .error p => p.status

/-- What a request comes to by its status: it succeeded, or something outside did not answer, or
nothing was done. -/
def Settled (w : World) (status : Nat) (w' : World) : Prop :=
  (status < 300 ∨ status = 503 ∨ status < 500 ∧ w.Untouched w') ∧ w.Steady w'

theorem settled_refl {status : Nat} (h : status < 500) : Settled w status w :=
  ⟨.inr (.inr ⟨h, World.Untouched.refl w⟩), Steady.refl w⟩

theorem Settled.count {status : Nat} (h : Settled w status w') {s : Series}
    (hs : s ≠ .takesRejected) (n : Nat) : Settled w status (w'.count s n) := by
  obtain ⟨hcase, hsteady⟩ := h
  refine ⟨?_, hsteady.trans (World.steady_count hs w' n)⟩
  exact hcase.imp_right fun h => h.imp_right fun h => ⟨h.1, h.2.trans (w'.untouched_count s n)⟩

/-- A reply settles what was asked. -/
def Settles (w : World) (res : Except Problem Response) (w' : World) : Prop :=
  Settled w (statusOf res) w'

theorem ends_given {α : Type} {x : Except Nat α} {next : α → Reply}
    (hx : ∀ s, x = .error s → 400 ≤ s ∧ s < 500)
    (hnext : ∀ a, x = .ok a → WorkEnds rank (next a) w (Settles w)) :
    WorkEnds rank (Reply.given x next) w (Settles w) := by
  cases x with
  | ok a => exact hnext a rfl
  | error s => exact settled_refl (hx s rfl).2

theorem ends_meant {α : Type} {x : Except Problem α} {next : α → Reply}
    (hx : ∀ p, x = .error p → p.status < 500)
    (hnext : ∀ a, x = .ok a → WorkEnds rank (next a) w (Settles w)) :
    WorkEnds rank (Reply.meant x next) w (Settles w) := by
  cases x with
  | ok a => exact hnext a rfl
  | error p => exact settled_refl (hx p rfl)

theorem settles_fault {α : Type} {f : Fault} (h : Clean w (.error f : Except Fault α) w') :
    Settles w (.error (.fault f)) w' := by
  obtain ⟨hfault, hsteady⟩ := h
  refine ⟨.inr ?_, hsteady⟩
  rcases hfault f rfl with hf | ⟨hf, rfl⟩
  · exact .inl (Problem.status_of_outside hf)
  · exact .inr ⟨(Problem.status_of_validation hf).2, World.Untouched.refl _⟩

theorem ends_ofWork {α : Type} {x : Work α} {response : α → Response}
    (hx : WorkEnds rank x w (Clean w)) (hok : ∀ a, (response a).status < 300) :
    WorkEnds rank (Reply.ofWork x response) w (Settles w) := by
  refine Flow.Ends.bind hx fun res w' h => ?_
  cases res with
  | error f => exact settles_fault h
  | ok a => exact ⟨.inl (hok a), h.2⟩

/-- Looking at the store does nothing. -/
theorem clean_look {α : Type} {x : DeskWork α} (hx : WorkEnds rank x w fun _ w' => w' = w) :
    WorkEnds rank (Work.ofDesk x) w (Clean w) := by
  refine hx.ofDesk.imp ?_
  rintro r w' ⟨s, rfl, rfl⟩
  refine ⟨?_, Steady.refl w'⟩
  rintro f hf
  cases s with
  | ok a => cases hf
  | error g =>
    cases hf
    exact (Fault.ofOrderFault_cases g).imp_right fun h => ⟨h, rfl⟩

theorem ends_list (hs : w.store.script = []) (f : OrderFilter) :
    WorkEnds rank (Desk.list f) w fun _ w' => w' = w := by
  refine (workAtOnce_mapError _ ((atOnce_searchOrders hs f).imp ?_)).ends rank
  rintro _ w ⟨-, rfl⟩
  rfl

theorem readNumber_status {s : String} {p : Problem} (h : readNumber s = .error p) :
    p.status < 500 := by
  unfold readNumber at h
  cases hn : OrderNumber.read s <;> rw [hn] at h <;> cases h
  simp [Problem.status]

theorem readFilter_status {s : Option String} {p : Problem} (h : readFilter s = .error p) :
    p.status < 500 := by
  unfold readFilter at h
  split at h <;> cases h
  simp [Problem.status]

variable (e : Engine) (topic : String) (r : Request)

theorem ends_reply (hs : w.store.script = []) (endpoint : Endpoint) :
    WorkEnds rank (reply e topic r endpoint) w (Settles w) := by
  have hdone : ∀ {response : Response}, response.status < 300 →
      WorkEnds rank (pure response : Reply) w (Settles w) := fun h =>
    workEnds_pure ⟨.inl h, Steady.refl w⟩
  have hlook : ∀ {a : Action} {response : a.Answer → Response}, (w.perform a).2 = w →
      (∀ x, (response x).status < 300) →
      WorkEnds rank (do return response (← Flow.ask a) : Reply) w (Settles w) := by
    intro a response ha h
    refine Flow.Ends.bind_lift (p := fun _ w' => w' = w) (Flow.ends_ask ha) ?_
    rintro x _ rfl
    exact hdone (h x)
  cases endpoint with
  | health => exact hdone (by simp)
  | metrics => exact hlook (a := .metrics) rfl fun _ => by simp
  | place =>
    refine ends_given (fun _ => readBody_status) fun (customer, items) _ => ?_
    exact ends_ofWork (e.clean_place customer items) fun _ => by simp
  | list =>
    refine ends_given (fun _ => readStatus_status) fun s _ => ?_
    refine ends_meant (fun _ => readFilter_status) fun f _ => ?_
    exact ends_ofWork (clean_look (ends_list hs f)) fun _ => by simp
  | sweep => exact ends_ofWork e.clean_requestSweep fun _ => by simp
  | get segment =>
    refine ends_given (fun _ => readSegment_status) fun s _ => ?_
    refine ends_meant (fun _ => readNumber_status) fun n _ => ?_
    have hget : WorkEnds rank (Desk.get n) w fun _ w' => w' = w :=
      (Desk.ends_get hs n).imp fun _ _ h => h.2
    refine Flow.Ends.bind_lift (Flow.Ends.and hget.ofDesk (clean_look hget)) ?_
    rintro (f | _ | o) w' ⟨⟨-, -, rfl⟩, hclean⟩
    · exact settles_fault hclean
    · refine workEnds_throw ?_
      exact settled_refl (by simp [statusOf, Problem.status])
    · exact hdone (by simp)
  | collect segment =>
    refine ends_given (fun _ => readSegment_status) fun s _ => ?_
    refine ends_meant (fun _ => readNumber_status) fun n _ => ?_
    exact ends_ofWork (e.clean_collect hs n) fun _ => by simp
  | inventory => exact hlook (a := .inventory) rfl fun _ => by simp
  | addInventory =>
    refine ends_given (fun _ => readBody_status) fun i _ => ?_
    exact ends_ofWork (e.clean_addInventory i.name i.quantity) fun _ => by simp

/-- Whether a request asks for the body has no say in the rest. -/
theorem ends_respond_of_reply {p : Nat → World → Prop}
    (hturned : ∀ s, endpoint r = .error s → p s w)
    (hreply : ∀ endpoint, Http.endpoint r = .ok endpoint →
      WorkEnds rank (reply e topic r endpoint) w fun res w' =>
        (∀ response, res = .ok response → p response.status w') ∧
        ∀ problem, res = .error problem →
          p problem.status (w'.count (.apiErrors problem.status) 1)) :
    (respond e topic r).Ends rank w fun response w' => p response.status w' := by
  have hlast : ∀ {response : Response} {v : World}, p response.status v →
      Flow.Ends rank (.done (if r.method = "HEAD" then { response with body := .none }
        else response)) v fun response w' => p response.status w' := by
    intro response v h
    refine Flow.ends_done ?_
    split <;> exact h
  unfold respond
  cases h : endpoint r with
  | error s => exact hlast (hturned s h)
  | ok endpoint =>
    refine Flow.Ends.bind (hreply endpoint h) ?_
    rintro (problem | response) w' ⟨hok, herror⟩
    · exact hlast (herror problem rfl)
    · exact hlast (hok response rfl)

/-- **A request succeeds, or something outside did not answer, or nothing was done.** -/
theorem ends_respond (hs : w.store.script = []) :
    (respond e topic r).Ends rank w fun response w' => Settled w response.status w' := by
  refine ends_respond_of_reply e topic r (fun s h => settled_refl (endpoint_status h))
    fun endpoint _ => (ends_reply e topic r hs endpoint).imp fun res w' h => ?_
  refine ⟨?_, ?_⟩
  · rintro response rfl
    exact h
  · rintro problem rfl
    exact h.count (by simp) 1

end Http

end Takeaway
