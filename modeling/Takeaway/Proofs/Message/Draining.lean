import Takeaway.Proofs.Message.Books
import Takeaway.Proofs.World.Parts

/-!
A mailroom that comes to rest. Main statement: after every run, tasks that go on by themselves are
enough for all who wait to get their places; callers and those who wait until no task is left do not
block each other, whatever the attempts to send come to.
-/

namespace Takeaway.Mailroom

variable {m m' : Mailroom} {w : World} {n : Nat} {t : Errand} {rest : List Errand} {e : Envelope}

/-! ### What is left to do -/

/-- The moves by which what was begun comes to its end: the first of those admitted begins its task,
the first task goes on as the broker has it, and who has all places gives them back. -/
inductive Move.GoesOn : Move → Prop where
  | begins : Move.GoesOn (.begins 0)
  | step : Move.GoesOn (.step 0 none)
  | returns : Move.GoesOn .returns

/-- How often somebody in line still changes its place, if all goes well. -/
def Waiter.load : Waiter → Nat
  | .caller _ => 3
  | .drain _ => 2

/-- How often parcels and those in line still change their places, if all goes well. -/
def load (m : Mailroom) : Nat :=
  (m.line.map Waiter.load).sum + 2 * m.admitted.length + m.tasks.length + m.drained

theorem after_append (m : Mailroom) (l l' : List Move) :
    m.after (l ++ l') = (m.after l).after l' := List.foldl_append

/-- Giving a place back leaves no more to do. -/
theorem load_giveOne (m : Mailroom) : m.giveOne.load ≤ m.load := by
  unfold giveOne
  split
  · exact Nat.le_refl _
  · next p rest hline =>
    simp only [load, hline, List.map_cons, List.sum_cons, Waiter.load, List.length_append,
      List.length_singleton]
    omega
  · next k rest hline =>
    split
    · simp only [load, hline, List.map_cons, List.sum_cons, Waiter.load]
      omega
    · simp only [load, hline, List.map_cons, List.sum_cons, Waiter.load, Nat.le_refl]

theorem load_give (n : Nat) (m : Mailroom) : (m.give n).load ≤ m.load := by
  induction n generalizing m with
  | zero => exact Nat.le_refl _
  | succ n ih => exact (ih m.giveOne).trans m.load_giveOne

theorem load_begins {p : Parcel} {rest : List Parcel} (h : m.admitted = p :: rest) :
    (m.move (.begins 0)).load < m.load := by
  simp only [move, begins, h, List.getElem?_cons_zero, List.eraseIdx_zero, List.tail_cons, load,
    List.length_append, List.length_cons, List.length_nil]
  omega

theorem load_returns (h : 0 < m.drained) : (m.move .returns).load < m.load := by
  simp only [move, returns, if_pos h]
  refine (load_give _ _).trans_lt ?_
  simp only [load]
  omega

/-! ### A task by itself -/

theorem load_goesOn (m : Mailroom) (k : Nat) (t : Errand) (w : World) (x : Flow Unit) :
    (m.goesOn k t w x).load = m.load := by
  simp only [load, goesOn, List.length_set]

/-- A task that is at its end gives its place back. -/
theorem load_step_of_done (ht : m.tasks[0]? = some t) (hdone : t.flow = .done ()) :
    (m.step 0 none).load < m.load := by
  obtain ⟨front, behind, htasks, herase, -⟩ := split_of_getElem? ht
  simp only [step, ht, hdone, herase]
  refine (load_giveOne _).trans_lt ?_
  simp only [load, htasks, List.length_append, List.length_cons]
  omega

theorem tasks_step_of_done (ht : m.tasks[0]? = some t) (hdone : t.flow = .done ()) :
    (m.step 0 none).tasks = m.tasks.tail := by
  simp only [step, ht, hdone]
  exact (same_giveOne _).tasks.trans (List.eraseIdx_zero)

/-- A step of a task takes no time. -/
theorem now_step (m : Mailroom) (k : Nat) (fault : Option MessageFailure) :
    (m.step k fault).world.now = m.world.now := by
  unfold step
  split
  · rfl
  · split
    · exact congrArg World.now (same_giveOne _).world
    · rfl
    · next a next _ =>
      cases a with
      | send e => cases fault <;> rfl
      | _ => exact World.perform_now m.world _

/-- **The first task comes to its end** by its own steps, at once, and then there is less to do. -/
theorem exists_ended (ht : m.tasks[0]? = some t) (howes : t.flow.Owes t.parcel.envelope n) :
    ∃ j, let m' := m.after (List.replicate j (.step 0 none))
      m'.load < m.load ∧ m'.tasks = m.tasks.tail ∧ m'.world.now = m.world.now := by
  induction n using Nat.strong_induction_on generalizing m t with
  | _ n ih =>
  obtain ⟨hpos, -⟩ := List.getElem?_eq_some_iff.1 ht
  have hset : ∀ x, (m.tasks.set 0 ⟨t.parcel, x⟩)[0]? = some ⟨t.parcel, x⟩ := fun x =>
    List.getElem?_set_self hpos
  have htail : ∀ x, (m.tasks.set 0 x).tail = m.tasks.tail := fun x => by cases m.tasks <;> rfl
  have hnow := m.now_step 0 none
  have hlast : ∀ m', m.step 0 none = m' → m'.tasks = m.tasks.set 0 ⟨t.parcel, .done ()⟩ →
      m'.load = m.load → ∃ j, let m' := m.after (List.replicate j (.step 0 none))
        m'.load < m.load ∧ m'.tasks = m.tasks.tail ∧ m'.world.now = m.world.now := by
    rintro m' rfl htasks hload
    have hdone : (m.step 0 none).tasks[0]? = some ⟨t.parcel, .done ()⟩ := htasks ▸ hset _
    refine ⟨2, (load_step_of_done hdone rfl).trans_eq hload, ?_, (now_step _ 0 none).trans hnow⟩
    exact (tasks_step_of_done hdone rfl).trans (by rw [htasks, htail])
  rcases step_of_owes ht howes none with ⟨w, x, j, -, hj, hx, hstep⟩ | hstep | hstep
  · obtain ⟨i, hload, htasks, hend⟩ := @ih j hj (m.goesOn 0 t w x) ⟨t.parcel, x⟩ (hset x) hx
    rw [load_goesOn] at hload
    rw [← hstep] at hload htasks hend
    exact ⟨i + 1, hload, htasks.trans (by rw [hstep]; exact htail _), hend.trans hnow⟩
  · exact hlast _ hstep rfl (m.load_goesOn 0 t m.world _)
  · exact hlast _ hstep rfl (m.load_goesOn 0 t m.world _)

/-- Where all that were admitted have begun their tasks and no task is left, either somebody has all
places or nobody waits. -/
theorem idle_of_empty (h : m.Keeps w 0) (hadmitted : m.admitted = []) (htasks : m.tasks = [])
    (hdrained : m.drained = 0) : m.Idle := by
  refine front_eq_iff.2 ⟨?_, hadmitted, hdrained⟩
  by_contra hline
  -- those in line would have all places
  have hplaces := h.places
  have hless := h.patient.keptBy_lt m.places_pos
  rw [h.full hline, hadmitted, htasks, hdrained] at hplaces
  simp only [kept, List.length_nil] at hplaces
  omega

/-! ### Coming to rest -/

/-- **A mailroom can come to rest** by going on with what was begun. -/
theorem exists_atRest (h : m.Keeps w 0) :
    ∃ more : List Move, (∀ x ∈ more, x.GoesOn) ∧ (m.after more).Idle ∧
      (m.after more).tasks = [] := by
  induction hn : m.load using Nat.strong_induction_on generalizing m with
  | _ n ih =>
  have hgo : ∀ l : List Move, (∀ x ∈ l, x.GoesOn) → (m.after l).load < m.load →
      ∃ more : List Move, (∀ x ∈ more, x.GoesOn) ∧ (m.after more).Idle ∧
        (m.after more).tasks = [] := by
    intro l hl hless
    obtain ⟨more, hmore, hrest⟩ := ih _ (hn ▸ hless) (h.after l) rfl
    exact ⟨l ++ more, List.forall_mem_append.2 ⟨hl, hmore⟩, after_append m l more ▸ hrest⟩
  cases hadmitted : m.admitted with
  | cons p rest =>
    exact hgo [.begins 0] (List.forall_mem_singleton.2 .begins) (load_begins hadmitted)
  | nil =>
    cases htasks : m.tasks with
    | cons t rest =>
      have ht : m.tasks[0]? = some t := by rw [htasks]; rfl
      have hsteps : ∀ j, ∀ x ∈ List.replicate j (Move.step 0 none), x.GoesOn := fun j x hx =>
        List.eq_of_mem_replicate hx ▸ .step
      rcases h.owing t (List.mem_of_getElem? ht) with hdone | ⟨i, howes⟩
      · exact hgo [.step 0 none] (hsteps 1) (load_step_of_done ht hdone)
      · obtain ⟨j, hj, -⟩ := exists_ended ht howes
        exact hgo _ (hsteps j) hj
    | nil =>
      rcases Nat.eq_zero_or_pos m.drained with hdrained | hdrained
      · exact ⟨[], fun x hx => absurd hx List.not_mem_nil,
          idle_of_empty h hadmitted htasks hdrained, htasks⟩
      · exact hgo [.returns] (List.forall_mem_singleton.2 .returns) (load_returns hdrained)

/-- **After every run the mailroom can come to rest**, and all that was handed in is settled. -/
theorem exists_atRest_after (w : World) (moves : List Move) :
    ∃ more : List Move, (∀ x ∈ more, x.GoesOn) ∧
      let m := (start w).after (moves ++ more)
      m.Idle ∧ m.Settled w ∧ m.inFlight = 0 := by
  obtain ⟨more, hmore, hrest⟩ := exists_atRest ((keeps_start w).after moves)
  rw [← after_append] at hrest
  obtain ⟨hidle, htasks⟩ := hrest
  have h := (keeps_start w).after (moves ++ more)
  exact ⟨more, hmore, hidle,
    settled_of_keeps h (nodup_calls_after w (moves ++ more)) hidle.calling htasks,
    hidle.inFlight h htasks⟩

end Takeaway.Mailroom
