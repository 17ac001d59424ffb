import Takeaway.Message.Pool
import Takeaway.Proofs.Message.Draining
import Takeaway.Proofs.Message.Notified

/-!
A pool of places and a mailroom. Main statement: what a pool tells of jobs that are brought one after
the other is what is seen of a mailroom in some run: a message is handed in for each job, its task
begins when the job does, and as many tasks are under way as jobs hold a place.
-/

namespace Takeaway

namespace Pool

variable {p : Pool}

/-- One of the jobs is over when a place becomes free. -/
theorem exists_finish_le (hjobs : p.running ≠ []) : ∃ j ∈ p.running, j.finish ≤ p.firstFree := by
  have hfold : ∀ (l : List Job) (j : Job),
      ∃ k ∈ j :: l, k.finish ≤ l.foldl (fun n k => min n k.finish) j.finish := by
    intro l
    induction l with
    | nil => exact fun j => ⟨j, List.mem_cons_self, Nat.le_refl _⟩
    | cons i l ih =>
      intro j
      rw [List.foldl_cons]
      rcases Nat.le_total j.finish i.finish with hle | hle
      · rw [min_eq_left hle]
        obtain ⟨k, hk, hfinish⟩ := ih j
        exact ⟨k, (List.Sublist.cons_cons j (List.sublist_cons_self i l)).mem hk, hfinish⟩
      · rw [min_eq_right hle]
        obtain ⟨k, hk, hfinish⟩ := ih i
        exact ⟨k, List.mem_cons_of_mem j hk, hfinish⟩
  unfold firstFree
  split
  · next hnone => exact absurd hnone hjobs
  · next j l hrunning =>
    obtain ⟨k, hk, hfinish⟩ := hfold l j
    exact ⟨k, hrunning ▸ hk, hfinish.trans (le_max_right _ _)⟩

theorem now_le_firstFree (p : Pool) : p.now ≤ p.firstFree := by
  unfold firstFree
  split
  · exact Nat.le_refl _
  · exact le_max_left _ _

/-- A place is free when the first job is over. -/
theorem length_advanced_lt (hjobs : p.running ≠ []) :
    (p.advanced p.firstFree).running.length < p.running.length := by
  obtain ⟨j, hj, hfinish⟩ := exists_finish_le hjobs
  exact List.length_filter_lt_length_iff_exists.2 ⟨j, hj, by simpa using hfinish⟩

/-- All jobs are over when the pool tells. -/
theorem le_allFree (p : Pool) : p.now ≤ p.allFree ∧ ∀ j ∈ p.running, j.finish ≤ p.allFree := by
  have hfold : ∀ (l : List Job) (n : Nat), n ≤ l.foldl (fun n j => max n j.finish) n ∧
      ∀ j ∈ l, j.finish ≤ l.foldl (fun n j => max n j.finish) n := by
    intro l
    induction l with
    | nil => exact fun n => ⟨Nat.le_refl n, nofun⟩
    | cons i l ih =>
      intro n
      obtain ⟨hle, hall⟩ := ih (max n i.finish)
      exact ⟨(le_max_left _ _).trans hle,
        List.forall_mem_cons.2 ⟨(le_max_right _ _).trans hle, hall⟩⟩
  exact hfold p.running p.now

theorem advanced_allFree (p : Pool) : (p.advanced p.allFree).running = [] := by
  refine List.filter_eq_nil_iff.2 fun j hj => ?_
  rw [decide_eq_true_eq, Nat.not_lt]
  exact p.le_allFree.2 j hj

/-- The pool after jobs that were brought one after the other, each for a message. -/
def bringing (p : Pool) (jobs : List (Envelope × Nat)) : Pool :=
  jobs.foldl (fun p j => (p.bring j.2).2) p

end Pool

namespace Mailroom

variable {m m' : Mailroom} {w : World} {p : Pool} {n : Nat} {e : Envelope}

/-- A mailroom in which nobody waits for a place, and in which as many tasks are under way at a tick
as a pool has jobs. -/
structure Houses (w : World) (p : Pool) (m : Mailroom) : Prop where
  keeps : m.Keeps w 0
  idle : m.Idle
  limit : p.limit = w.notices.limit
  now : m.world.now = w.now + p.now
  tasks : m.tasks.length = p.running.length

/-! ### Tasks that end -/

/-- The first task can end at once. -/
theorem exists_fewer (h : m.Keeps w 0) (htasks : m.tasks ≠ []) :
    ∃ m', m.Runs m' ∧ m'.Keeps w 0 ∧ m'.tasks.length + 1 = m.tasks.length ∧
      m'.world.now = m.world.now := by
  obtain ⟨t, rest, hrest⟩ := List.exists_cons_of_ne_nil htasks
  have ht : m.tasks[0]? = some t := by rw [hrest]; rfl
  obtain ⟨j, hj, hnow⟩ : ∃ j, (m.after (List.replicate j (.step 0 none))).tasks = m.tasks.tail ∧
      (m.after (List.replicate j (.step 0 none))).world.now = m.world.now := by
    rcases h.owing t (List.mem_of_getElem? ht) with hdone | ⟨n, howes⟩
    · exact ⟨1, tasks_step_of_done ht hdone, m.now_step 0 none⟩
    · obtain ⟨j, -, hj⟩ := exists_ended ht howes
      exact ⟨j, hj⟩
  refine ⟨_, ⟨_, fun x hx => List.eq_of_mem_replicate hx ▸ .step 0, rfl⟩, h.after _, ?_, hnow⟩
  rw [hj, hrest]
  rfl

/-- So can others, until as few are left as one likes. -/
theorem exists_left (h : m.Keeps w 0) (hn : n ≤ m.tasks.length) :
    ∃ m', m.Runs m' ∧ m'.Keeps w 0 ∧ m'.tasks.length = n ∧ m'.world.now = m.world.now := by
  induction hlength : m.tasks.length generalizing m with
  | zero => exact ⟨m, .refl m, h, by omega, rfl⟩
  | succ k ih =>
    rcases Nat.eq_or_lt_of_le hn with heq | hlt
    · exact ⟨m, .refl m, h, heq.symm, rfl⟩
    · obtain ⟨m₁, hruns, h₁, hfewer, hnow⟩ := exists_fewer h (List.ne_nil_of_length_pos (by omega))
      obtain ⟨m₂, hruns', h₂, hleft, hnow'⟩ := ih h₁ (by omega) (by omega)
      exact ⟨m₂, hruns.trans hruns', h₂, hleft, hnow'.trans hnow⟩

/-- And time can pass for that. -/
theorem exists_later (h : m.Keeps w 0) (hn : n ≤ m.tasks.length) (ticks : Nat) :
    ∃ m', m.Runs m' ∧ m'.Keeps w 0 ∧ m'.tasks.length = n ∧
      m'.world.now = m.world.now + ticks := by
  obtain ⟨m', hruns, hkeeps, hleft, hnow⟩ := exists_left (h.after [.pass ticks]) hn
  refine ⟨m', (Runs.of_move (.pass ticks) m).trans hruns, hkeeps, hleft, hnow.trans ?_⟩
  exact max_eq_right (Nat.le_add_right _ _)

namespace Houses

/-- As many messages are in flight as jobs hold a place. -/
theorem inFlight (h : m.Houses w p) : m.inFlight = p.running.length := by
  obtain ⟨hline, hadmitted, hdrained⟩ := front_eq_iff.1 h.idle
  have hplaces := h.keeps.places
  rw [kept, hline, hadmitted, hdrained, h.tasks] at hplaces
  simp only [Waiter.keptBy_nil, List.length_nil] at hplaces
  unfold Mailroom.inFlight
  omega

/-- While time passes, tasks can end as jobs do. -/
theorem exists_advanced (h : m.Houses w p) {tick : Nat} (htick : p.now ≤ tick) :
    ∃ m', m.Runs m' ∧ m'.Houses w (p.advanced tick) := by
  have hfewer : (p.advanced tick).running.length ≤ m.tasks.length :=
    (List.length_filter_le ..).trans_eq h.tasks.symm
  obtain ⟨m', hruns, hkeeps, hleft, hnow⟩ := exists_later h.keeps hfewer (tick - p.now)
  refine ⟨m', hruns, hkeeps, h.idle.runs hruns, h.limit, hnow.trans ?_, hleft⟩
  show m.world.now + (tick - p.now) = w.now + tick
  rw [h.now]
  omega

/-- The message of a job is handed in, and its task begins when so few are left that there is a
place. -/
theorem exists_begun (h : m.Houses w p) (e : Envelope) {tick : Nat} (htick : p.now ≤ tick)
    (hn : n ≤ p.running.length) (hplace : n < max p.limit 1) :
    ∃ moves : List Move, moves.filterMap Move.handedIn? = [e] ∧ (m.after moves).Keeps w 0 ∧
      (m.after moves).Idle ∧ (m.after moves).tasks.length = n + 1 ∧
      (m.after moves).world.now = w.now + tick := by
  have hcall : (m.call e).world = m.world ∧ (m.call e).tasks = m.tasks := by
    unfold call
    dsimp only
    split <;> exact ⟨rfl, rfl⟩
  obtain ⟨m₁, hruns, h₁, hleft, hnow⟩ := exists_later (h.keeps.call e)
    (hn.trans_eq (by rw [hcall.2, h.tasks])) (tick - p.now)
  have hserves := (h.idle.serves_call e).runs hruns
  obtain ⟨own, rfl, hown⟩ := handedIn_of_runs hruns
  have hfront : ((m.call e).after own).front = ([], [⟨m.calls.length, e⟩], 0) := by
    refine hserves.admitted h₁ ?_
    unfold places
    rwa [hleft, h₁.notices, ← h.limit]
  have hafter : m.after (.call e :: (own ++ [.begins 0])) = ((m.call e).after own).begins 0 :=
    List.foldl_append
  obtain ⟨hline, hadmitted, hdrained⟩ := front_eq_iff.1 hfront
  refine ⟨.call e :: (own ++ [.begins 0]), ?_, h.keeps.after _, ?_⟩
  · rw [List.filterMap_cons, List.filterMap_append, hown]
    rfl
  · rw [hafter]
    unfold begins
    simp only [hadmitted, List.getElem?_cons_zero]
    refine ⟨by simp [Idle, front, hline, hdrained], ?_, ?_⟩
    · rw [List.length_append, hleft]
      rfl
    · rw [hnow, hcall.1, h.now]
      omega

/-- **A job that is brought** is a message that is handed in, and its task begins when the job
does. -/
theorem exists_brought (h : m.Houses w p) (e : Envelope) (duration : Nat) :
    ∃ moves : List Move, moves.filterMap Move.handedIn? = [e] ∧
      (m.after moves).Houses w (p.bring duration).2 ∧
      (m.after moves).world.now = w.now + (p.bring duration).1.start := by
  -- the pool when there is a place
  let q := if p.running.length < max p.limit 1 then p else p.advanced p.firstFree
  have hlimit : q.limit = p.limit := by unfold q; split <;> rfl
  have hq : p.now ≤ q.now ∧ q.running.length ≤ p.running.length ∧
      q.running.length < max p.limit 1 := by
    unfold q
    split
    · next hplace => exact ⟨Nat.le_refl _, Nat.le_refl _, hplace⟩
    · next hfull =>
      have hjobs : p.running ≠ [] := by
        rintro hnone
        rw [hnone] at hfull
        exact hfull (Nat.lt_of_lt_of_le Nat.one_pos (le_max_right _ _))
      have hless := Pool.length_advanced_lt hjobs
      have hplaces := h.keeps.tasks_le
      rw [h.tasks, ← h.limit] at hplaces
      exact ⟨p.now_le_firstFree, hless.le, hless.trans_le hplaces⟩
  obtain ⟨moves, hmoves, hkeeps, hidle, htasks, hnow⟩ := h.exists_begun e hq.1 hq.2.1 hq.2.2
  refine ⟨moves, hmoves, ⟨hkeeps, hidle, hlimit.trans h.limit, hnow, ?_⟩, hnow⟩
  rw [htasks, Pool.bring, List.length_append]
  rfl

end Houses

theorem houses_start (w : World) : (start w).Houses w { limit := w.notices.limit } :=
  ⟨keeps_start w, idle_start w, rfl, rfl, rfl⟩

/-- **Jobs that are brought to a pool one after the other** are messages that are handed in to a
mailroom in some run; at its end as many are in flight as jobs hold a place, at the tick at which the
last has begun; and it can go on until all are over, at the tick that the pool tells. -/
theorem exists_bringing (w : World) (jobs : List (Envelope × Nat)) :
    let p := ({ limit := w.notices.limit } : Pool).bringing jobs
    ∃ moves : List Move, moves.filterMap Move.handedIn? = jobs.map (·.1) ∧
      ((start w).after moves).Houses w p ∧
      ((start w).after moves).inFlight = p.running.length ∧
      ∃ m', ((start w).after moves).Runs m' ∧ m'.Houses w (p.advanced p.allFree) ∧
        m'.inFlight = 0 := by
  intro p
  obtain ⟨moves, hmoves, h⟩ : ∃ moves : List Move,
      moves.filterMap Move.handedIn? = jobs.map (·.1) ∧ ((start w).after moves).Houses w p := by
    unfold p
    induction jobs using List.reverseRecOn with
    | nil => exact ⟨[], rfl, houses_start w⟩
    | append_singleton jobs job ih =>
      obtain ⟨moves, hmoves, h⟩ := ih
      obtain ⟨more, hmore, h', -⟩ := h.exists_brought job.1 job.2
      refine ⟨moves ++ more, by rw [List.filterMap_append, hmoves, hmore, List.map_append]; rfl, ?_⟩
      rw [after_append, Pool.bringing, List.foldl_concat]
      exact h'
  refine ⟨moves, hmoves, h, h.inFlight, ?_⟩
  obtain ⟨m', hruns, h'⟩ := h.exists_advanced p.le_allFree.1
  refine ⟨m', hruns, h', ?_⟩
  rw [h'.inFlight, p.advanced_allFree]
  rfl

end Mailroom

end Takeaway
