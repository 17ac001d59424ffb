import Takeaway.Proofs.Message.Mailroom

/-!
The books of a mailroom: who has which place, and where each message is. Main statement: there are
never more tasks than places; and when no task is left and nobody is handing in a message, each
message that was handed in was either sent once or counted once as failed.
-/

namespace Takeaway

namespace Mailroom

variable {m : Mailroom} {w : World} {hand j k n : Nat} {t : Errand} {e : Envelope} {x : Flow Unit}

/-! ### Keeping the books -/

/-- The mailroom of a world keeps its books, when so many places were given back that nobody has got
yet. -/
structure Keeps (w : World) (hand : Nat) (m : Mailroom) : Prop where
  topic : m.world.topic = w.topic
  notices : m.world.notices = w.notices
  /-- Every place is free, or somebody has it. -/
  places : m.free + m.kept + m.admitted.length + m.tasks.length + m.drained * m.places + hand =
    m.places
  /-- Nobody waits where a place is free. -/
  full : m.line ≠ [] → m.free = 0
  patient : Waiter.Patient m.places m.line
  owing : ∀ t ∈ m.tasks, t.flow = .done () ∨ ∃ n, t.flow.Owes t.parcel.envelope n
  /-- Every parcel is with a caller or a task, was sent, or has failed. -/
  accounts : ∀ p, m.calling.count p + m.pending.count p + m.sent.count p + m.failed.count p =
    m.calls.count p
  failures : m.world.metrics.value .notificationsFailed =
    w.metrics.value .notificationsFailed + m.failed.length
  total : m.world.broker.total = w.broker.total + m.sent.length
  record : ∀ early, w.broker.Records early →
    m.world.broker.Records (early ++ m.sent.map fun p => ⟨w.topic, p.envelope⟩)

theorem keeps_start (w : World) : (start w).Keeps w 0 where
  topic := rfl
  notices := rfl
  places := by simp [start, kept, places]
  full h := absurd rfl h
  patient := ⟨fun _ hx => absurd hx List.not_mem_nil, .nil⟩
  owing _ ht := absurd ht List.not_mem_nil
  accounts p := rfl
  failures := rfl
  total := rfl
  record early h := by simpa [start] using h

theorem places_pos (m : Mailroom) : 0 < m.places := by unfold places; omega

namespace Keeps

/-- A place that was given back goes to somebody, or is free. -/
theorem giveOne (h : m.Keeps w (hand + 1)) : m.giveOne.Keeps w hand := by
  have hplaces := h.places
  have hpatient := h.patient
  have haccounts := h.accounts
  unfold Mailroom.giveOne
  split
  · next hline =>
    refine { h with places := ?_, full := fun hne => absurd hline hne }
    simp only [kept, Mailroom.places] at hplaces ⊢
    omega
  · next p rest hline =>
    have hfull := h.full (by simp [hline])
    rw [hline] at hpatient
    refine { h with
      places := ?_
      full := fun _ => hfull
      patient := hpatient.tail
      accounts := fun q => ?_ }
    · simp only [kept, Mailroom.places, hline, Waiter.keptBy_cons, Waiter.kept, List.length_append,
        List.length_singleton] at hplaces ⊢
      omega
    · have hq := haccounts q
      simp only [calling, waiting, pending, hline, Waiter.parcels_caller, List.count_append,
        List.count_cons, List.count_nil] at hq ⊢
      omega
  · next j rest hline =>
    have hfull := h.full (by simp [hline])
    rw [hline] at hpatient
    simp only [calling, waiting, hline, Waiter.parcels_drain] at haccounts
    simp only [kept, hline, Waiter.keptBy_cons, Waiter.kept] at hplaces
    split
    · next hall =>
      refine { h with
        places := ?_
        full := fun _ => hfull
        patient := hpatient.tail
        accounts := haccounts }
      simp only [kept, Mailroom.places, Nat.succ_mul] at hplaces hall ⊢
      omega
    · next hless =>
      have hlt : j + 1 < m.places := Nat.lt_of_le_of_ne (hpatient.wants _ List.mem_cons_self) hless
      refine { h with
        places := ?_
        full := fun _ => hfull
        patient := hpatient.cons_of_lt hlt
        accounts := haccounts }
      simp only [kept, Mailroom.places, Waiter.keptBy_cons, Waiter.kept] at hplaces ⊢
      omega

theorem give (h : m.Keeps w n) : (m.give n).Keeps w 0 := by
  induction n generalizing m with
  | zero => exact h
  | succ n ih => exact ih h.giveOne

/-- Handing in a message. -/
theorem call (h : m.Keeps w 0) (e : Envelope) : (m.call e).Keeps w 0 := by
  have hplaces := h.places
  have haccounts := h.accounts
  unfold Mailroom.call
  dsimp only
  split
  · next hfree =>
    have hempty : m.line = [] := by
      by_contra hne
      exact Nat.ne_of_gt hfree (h.full hne)
    refine { h with places := ?_, full := fun hne => absurd hempty hne, accounts := fun q => ?_ }
    · simp only [kept, Mailroom.places, List.length_append, List.length_singleton] at hplaces ⊢
      omega
    · have hq := haccounts q
      simp only [calling, waiting, pending, List.count_append] at hq ⊢
      omega
  · next hfree =>
    have hnone : m.free = 0 := Nat.eq_zero_of_not_pos hfree
    refine { h with
      places := ?_
      full := fun _ => hnone
      patient := h.patient.append m.places_pos fun _ => rfl
      accounts := fun q => ?_ }
    · simp only [kept, Mailroom.places, Waiter.keptBy_append, Waiter.keptBy_cons, Waiter.keptBy_nil,
        Waiter.kept] at hplaces ⊢
      omega
    · have hq := haccounts q
      simp only [calling, waiting, pending, Waiter.parcels_append, Waiter.parcels_caller,
        Waiter.parcels_nil, List.count_append] at hq ⊢
      omega

/-- Waiting for all places. -/
theorem drain (h : m.Keeps w 0) : m.drain.Keeps w 0 := by
  have hplaces := h.places
  unfold Mailroom.drain
  split
  · next hall =>
    refine { h with places := ?_, full := fun _ => rfl }
    simp only [kept, Mailroom.places, Nat.succ_mul] at hplaces hall ⊢
    omega
  · next hless =>
    have hlt : m.free < m.places := by omega
    refine { h with
      places := ?_
      full := fun _ => rfl
      patient := h.patient.append hlt h.full
      accounts := fun q => ?_ }
    · simp only [kept, Mailroom.places, Waiter.keptBy_append, Waiter.keptBy_cons, Waiter.keptBy_nil,
        Waiter.kept] at hplaces ⊢
      omega
    · have hq := h.accounts q
      simpa only [calling, waiting, pending, Waiter.parcels_append, Waiter.parcels_drain,
        Waiter.parcels_nil, List.append_nil] using hq

/-- Giving all places back. -/
theorem returns (h : m.Keeps w 0) : m.returns.Keeps w 0 := by
  unfold Mailroom.returns
  split
  · next hdrained =>
    refine give (m := { m with drained := m.drained - 1 }) { h with places := ?_ }
    have hplaces := h.places
    obtain ⟨d, hd⟩ : ∃ d, m.drained = d + 1 := ⟨m.drained - 1, by omega⟩
    simp only [kept, Mailroom.places, hd, Nat.succ_mul, Nat.add_sub_cancel] at hplaces ⊢
    omega
  · exact h

/-- What happens to the world when no message is sent and no failure counted. -/
theorem unheard (h : m.Keeps w hand) {w' : World} (hw : m.world.Unheard w') :
    Keeps w hand { m with world := w' } where
  topic := hw.topic.trans h.topic
  notices := hw.notices.trans h.notices
  places := by
    have hplaces := h.places
    simp only [kept, Mailroom.places, hw.notices] at hplaces ⊢
    exact hplaces
  full := h.full
  patient := by
    have hpatient := h.patient
    simp only [Mailroom.places, hw.notices] at hpatient ⊢
    exact hpatient
  owing := h.owing
  accounts := h.accounts
  failures := hw.failures.trans h.failures
  total := hw.total.trans h.total
  record early hearly :=
    have hr := h.record early hearly
    ⟨hw.records.trans hr.records, hw.history.trans hr.history⟩

/-- Beginning a task. -/
theorem begins (h : m.Keeps w 0) (k : Nat) : (m.begins k).Keeps w 0 := by
  unfold Mailroom.begins
  split
  · exact h
  · next p hp =>
    obtain ⟨front, behind, hadmitted, herase, -⟩ := split_of_getElem? hp
    have howes := m.world.notices.policy.owes_noticeTask p.envelope
    have hdue : Errand.due ⟨p, noticeTask m.world.notices.policy p.envelope⟩ = [p] :=
      due_of_owes howes
    rw [herase]
    refine { h with places := ?_, owing := ?_, accounts := fun q => ?_ }
    · have hplaces := h.places
      simp only [kept, Mailroom.places, hadmitted, List.length_append, List.length_cons,
        List.length_nil] at hplaces ⊢
      omega
    · exact List.forall_mem_append.2 ⟨h.owing, List.forall_mem_singleton.2 (.inr ⟨_, howes⟩)⟩
    · have hq := h.accounts q
      simp only [calling, waiting, pending, hadmitted, List.flatMap_append, List.flatMap_singleton,
        hdue, List.count_append, List.count_cons, List.count_nil] at hq ⊢
      omega

/-- The books when the `k`-th task has gone on, all but what became of its message. -/
theorem goesOn (h : m.Keeps w 0) (ht : m.tasks[k]? = some t) (howes : t.flow.Owes e n)
    (hx : x = .done () ∨ ∃ j, x.Owes t.parcel.envelope j) :
    let tasks := m.tasks.set k ⟨t.parcel, x⟩
    m.free + m.kept + m.admitted.length + tasks.length + m.drained * m.places = m.places ∧
      (∀ t ∈ tasks, t.flow = .done () ∨ ∃ n, t.flow.Owes t.parcel.envelope n) ∧
      ∀ p, m.calling.count p + (tasks.flatMap Errand.due).count p + m.sent.count p +
        m.failed.count p + [t.parcel].count p =
          m.calls.count p + (Errand.due ⟨t.parcel, x⟩).count p := by
  obtain ⟨front, behind, htasks, -, hset⟩ := split_of_getElem? ht
  have hplaces := h.places
  have howing := h.owing
  rw [htasks, List.forall_mem_append, List.forall_mem_cons] at howing
  rw [hset]
  refine ⟨?_, ?_, fun p => ?_⟩
  · simpa only [htasks, List.length_append, List.length_cons, Nat.add_zero] using hplaces
  · exact List.forall_mem_append.2 ⟨howing.1, List.forall_mem_cons.2 ⟨hx, howing.2.2⟩⟩
  · have hp := h.accounts p
    simp only [pending, htasks, List.flatMap_append, List.flatMap_cons, due_of_owes howes,
      List.count_append] at hp ⊢
    omega

/-- A task that comes nearer to its end. -/
theorem still (h : m.Keeps w 0) (ht : m.tasks[k]? = some t) (howes : t.flow.Owes e n)
    (hx : x.Owes t.parcel.envelope j) {w' : World} (hw : m.world.Unheard w') :
    (m.goesOn k t w' x).Keeps w 0 := by
  obtain ⟨hplaces, howing, haccounts⟩ := h.goesOn ht howes (.inr ⟨j, hx⟩)
  rw [due_of_owes (t := ⟨t.parcel, x⟩) hx] at haccounts
  have hstill : (m.goesOn k t m.world x).Keeps w 0 := { h with
    places := hplaces
    owing := howing
    accounts := fun p => Nat.add_right_cancel (haccounts p) }
  exact hstill.unheard hw

/-- A task that has sent its message. -/
theorem delivers (h : m.Keeps w 0) (ht : m.tasks[k]? = some t) (howes : t.flow.Owes e n) :
    (m.delivers k t).Keeps w 0 := by
  obtain ⟨hplaces, howing, haccounts⟩ := h.goesOn ht howes (.inl rfl)
  refine { h with
    places := hplaces
    owing := howing
    accounts := fun p => ?_
    total := ?_
    record := fun early hearly => ?_ }
  · have hp := haccounts p
    simp only [calling, waiting, pending, Mailroom.delivers, Mailroom.goesOn,
      due_of_done (t := ⟨t.parcel, _⟩) rfl, List.count_append, List.count_nil] at hp ⊢
    omega
  · have htotal := h.total
    simp only [Mailroom.delivers, Mailroom.goesOn, Broker.deliver, List.length_append,
      List.length_singleton]
    omega
  · have hr := (h.record early hearly).deliver ⟨m.world.topic, t.parcel.envelope⟩
    rw [h.topic, List.append_assoc] at hr
    simp only [Mailroom.delivers, Mailroom.goesOn, h.topic, List.map_append, List.map_cons,
      List.map_nil]
    exact hr

/-- A task that has counted its message as failed. -/
theorem givesUp (h : m.Keeps w 0) (ht : m.tasks[k]? = some t) (howes : t.flow.Owes e n) :
    (m.givesUp k t).Keeps w 0 := by
  obtain ⟨hplaces, howing, haccounts⟩ := h.goesOn ht howes (.inl rfl)
  refine { h with
    places := hplaces
    owing := howing
    accounts := fun p => ?_
    failures := ?_ }
  · have hp := haccounts p
    simp only [calling, waiting, pending, Mailroom.givesUp, Mailroom.goesOn,
      due_of_done (t := ⟨t.parcel, _⟩) rfl, List.count_append, List.count_nil] at hp ⊢
    omega
  · have hcount := Metrics.value_count m.world.metrics .notificationsFailed .notificationsFailed 1
    have hfailures := h.failures
    rw [if_pos rfl] at hcount
    simp only [Mailroom.givesUp, Mailroom.goesOn, World.count, List.length_append,
      List.length_singleton]
    omega

/-- A task that is at its end gives its place back. -/
theorem ended (h : m.Keeps w 0) (ht : m.tasks[k]? = some t) (hdone : t.flow = .done ()) :
    (Mailroom.giveOne { m with tasks := m.tasks.eraseIdx k }).Keeps w 0 := by
  obtain ⟨front, behind, htasks, herase, -⟩ := split_of_getElem? ht
  have hplaces := h.places
  have howing := h.owing
  rw [htasks, List.forall_mem_append, List.forall_mem_cons] at howing
  rw [herase]
  refine giveOne (m := { m with tasks := front ++ behind }) { h with
    places := ?_
    owing := ?_
    accounts := fun p => ?_ }
  · simp only [kept, Mailroom.places, htasks, List.length_append, List.length_cons] at hplaces ⊢
    omega
  · exact List.forall_mem_append.2 ⟨howing.1, howing.2.2⟩
  · have hp := h.accounts p
    simpa only [calling, waiting, pending, htasks, List.flatMap_append, List.flatMap_cons,
      due_of_done hdone, List.nil_append] using hp

/-- One step of a task. -/
theorem step (h : m.Keeps w 0) (k : Nat) (fault : Option MessageFailure) :
    (m.step k fault).Keeps w 0 := by
  cases ht : m.tasks[k]? with
  | none =>
    simp only [Mailroom.step, ht]
    exact h
  | some t =>
    rcases h.owing t (List.mem_of_getElem? ht) with hdone | ⟨n, howes⟩
    · simp only [Mailroom.step, ht, hdone]
      exact h.ended ht hdone
    · rcases step_of_owes ht howes fault with ⟨w', x, j, hw, -, hx, hstep⟩ | hstep | hstep
      · rw [hstep]
        exact h.still ht howes hx hw
      · rw [hstep]
        exact h.delivers ht howes
      · rw [hstep]
        exact h.givesUp ht howes

/-- **One move** keeps the books. -/
theorem move (h : m.Keeps w 0) (x : Move) : (m.move x).Keeps w 0 := by
  cases x with
  | call e => exact h.call e
  | begins k => exact h.begins k
  | step k fault => exact h.step k fault
  | drain => exact h.drain
  | returns => exact h.returns
  | trouble failing isUp => exact h.unheard ⟨rfl, rfl, rfl, rfl, rfl, rfl⟩
  | pass ticks => exact h.unheard ⟨rfl, rfl, rfl, rfl, rfl, rfl⟩

/-- **A whole run** keeps the books. -/
theorem after (h : m.Keeps w 0) (moves : List Move) : (m.after moves).Keeps w 0 := by
  induction moves generalizing m with
  | nil => exact h
  | cons x moves ih => exact ih (h.move x)

/-- There are no more tasks than places. -/
theorem tasks_le (h : m.Keeps w hand) : m.tasks.length ≤ max w.notices.limit 1 := by
  have hplaces := h.places
  rw [← h.notices]
  simp only [Mailroom.places] at hplaces
  omega

/-- When somebody has all places, no caller and no task has one. -/
theorem empty (h : m.Keeps w 0) (hdrained : 0 < m.drained) : m.admitted = [] ∧ m.tasks = [] := by
  have hplaces := h.places
  have hall : m.places ≤ m.drained * m.places := Nat.le_mul_of_pos_left _ hdrained
  constructor <;> apply List.eq_nil_of_length_eq_zero <;> omega

end Keeps

/-! ### Runs -/

/-- The message that is handed in. -/
def Move.handedIn? : Move → Option Envelope
  | .call e => some e
  | _ => none

/-- What stays as it is when places are given back. -/
structure Same (m m' : Mailroom) : Prop where
  world : m'.world = m.world
  tasks : m'.tasks = m.tasks
  calls : m'.calls = m.calls
  sent : m'.sent = m.sent
  failed : m'.failed = m.failed

theorem same_giveOne (m : Mailroom) : m.Same m.giveOne := by
  unfold giveOne
  split
  · exact ⟨rfl, rfl, rfl, rfl, rfl⟩
  · exact ⟨rfl, rfl, rfl, rfl, rfl⟩
  · split <;> exact ⟨rfl, rfl, rfl, rfl, rfl⟩

theorem same_give (n : Nat) (m : Mailroom) : m.Same (m.give n) := by
  induction n generalizing m with
  | zero => exact ⟨rfl, rfl, rfl, rfl, rfl⟩
  | succ n ih =>
    have hone := m.same_giveOne
    have hrest := ih m.giveOne
    exact ⟨hrest.world.trans hone.world, hrest.tasks.trans hone.tasks, hrest.calls.trans hone.calls,
      hrest.sent.trans hone.sent, hrest.failed.trans hone.failed⟩

theorem same_returns (m : Mailroom) : m.Same m.returns := by
  unfold returns
  split
  · have hgive := same_give m.places { m with drained := m.drained - 1 }
    exact ⟨hgive.world, hgive.tasks, hgive.calls, hgive.sent, hgive.failed⟩
  · exact ⟨rfl, rfl, rfl, rfl, rfl⟩

theorem calls_move (m : Mailroom) (x : Move) :
    (m.move x).calls = m.calls ++ (x.handedIn?.map fun e => ⟨m.calls.length, e⟩).toList := by
  cases x with
  | call e =>
    simp only [move, call]
    split <;> rfl
  | begins k =>
    simp only [move, begins]
    split <;> exact (List.append_nil _).symm
  | step k fault =>
    simp only [move, step]
    split
    · exact (List.append_nil _).symm
    · split
      · exact (same_giveOne _).calls.trans (List.append_nil _).symm
      · exact (List.append_nil _).symm
      · exact (List.append_nil _).symm
  | drain =>
    simp only [move, drain]
    split <;> exact (List.append_nil _).symm
  | returns => exact m.same_returns.calls.trans (List.append_nil _).symm
  | trouble failing isUp => exact (List.append_nil _).symm
  | pass ticks => exact (List.append_nil _).symm

/-- What was handed in, numbered from the first call on. -/
theorem calls_after (m : Mailroom) (moves : List Move) : (m.after moves).calls =
    m.calls ++ (moves.filterMap Move.handedIn?).mapIdx fun i e => ⟨m.calls.length + i, e⟩ := by
  induction moves generalizing m with
  | nil => exact (List.append_nil _).symm
  | cons x moves ih =>
    have hrest := ih (m.move x)
    have hone := m.calls_move x
    unfold after at hrest ⊢
    rw [List.foldl_cons, hrest, hone, List.filterMap_cons]
    cases x.handedIn? with
    | none => simp
    | some e => simp [Nat.add_comm, Nat.add_left_comm]

/-- Nothing is handed in twice. -/
theorem nodup_calls_after (w : World) (moves : List Move) :
    ((start w).after moves).calls.Nodup := by
  refine List.Nodup.of_map Parcel.serial ?_
  have hserials : ((start w).after moves).calls.map Parcel.serial =
      List.range (moves.filterMap Move.handedIn?).length := by
    rw [calls_after]
    refine List.ext_getElem (by simp [start]) fun i _ _ => by simp [start]
  rw [hserials]
  exact List.nodup_range

/-- All that was handed in since this world is settled: each message was sent once, or counted once
as failed, and nothing else was. -/
structure Settled (w : World) (m : Mailroom) : Prop where
  once : ∀ p, m.sent.count p + m.failed.count p = if p ∈ m.calls then 1 else 0
  /-- What was sent is what the broker got. -/
  total : m.world.broker.total = w.broker.total + m.sent.length
  record : ∀ early, w.broker.Records early →
    m.world.broker.Records (early ++ m.sent.map fun p => ⟨w.topic, p.envelope⟩)
  /-- What has failed is what was counted. -/
  failures : m.world.metrics.value .notificationsFailed =
    w.metrics.value .notificationsFailed + m.failed.length

theorem Settled.of_same {m' : Mailroom} (h : m.Settled w) (hsame : m.Same m') : m'.Settled w := by
  refine ⟨?_, ?_, ?_, ?_⟩ <;> simp only [hsame.world, hsame.calls, hsame.sent, hsame.failed]
  · exact h.once
  · exact h.total
  · exact h.record
  · exact h.failures

/-- Where the books are kept and nobody has a message left, all is settled. -/
theorem settled_of_keeps (h : m.Keeps w 0) (hnodup : m.calls.Nodup) (hcalling : m.calling = [])
    (htasks : m.tasks = []) : m.Settled w where
  once p := by
    have hp := h.accounts p
    rw [hcalling, pending, htasks, List.flatMap_nil, hnodup.count] at hp
    simpa using hp
  total := h.total
  record := h.record
  failures := h.failures

/-- Where all is settled, nobody is handing in a message. -/
theorem Settled.calling_eq_nil (h : m.Settled w) (hkeeps : m.Keeps w 0) (hnodup : m.calls.Nodup) :
    m.calling = [] := by
  refine List.eq_nil_iff_forall_not_mem.2 fun p hp => ?_
  have haccounts := hkeeps.accounts p
  have honce := h.once p
  have hpos := List.count_pos_iff.2 hp
  rw [hnodup.count] at haccounts
  omega

/-! ### Nobody waits -/

/-- Those who wait in line, those who were admitted, and how many have all places. -/
def front (m : Mailroom) : List Waiter × List Parcel × Nat := (m.line, m.admitted, m.drained)

theorem front_eq_iff {l : List Waiter} {a : List Parcel} {d : Nat} :
    m.front = (l, a, d) ↔ m.line = l ∧ m.admitted = a ∧ m.drained = d := by
  simp only [front, Prod.mk.injEq]

/-- Nobody waits for places, no caller has one, and nobody has all of them. -/
def Idle (m : Mailroom) : Prop := m.front = ([], [], 0)

theorem idle_of_draining (hcalling : m.calling = []) (hdraining : m.draining = 0) : m.Idle := by
  obtain ⟨hwaiting, hadmitted⟩ := List.append_eq_nil_iff.1 hcalling
  obtain ⟨hnone, hdrained⟩ := Nat.add_eq_zero_iff.1 hdraining
  refine front_eq_iff.2 ⟨List.eq_nil_iff_forall_not_mem.2 fun x hx => ?_, hadmitted, hdrained⟩
  cases hp : x.parcel? with
  | none => exact List.countP_eq_zero.1 hnone x hx (by rw [hp]; rfl)
  | some p =>
    have hmem : p ∈ m.waiting := List.mem_filterMap.2 ⟨x, hx, hp⟩
    rw [hwaiting] at hmem
    exact absurd hmem List.not_mem_nil

theorem Idle.calling (h : m.Idle) : m.calling = [] := by
  obtain ⟨hline, hadmitted, -⟩ := front_eq_iff.1 h
  rw [Mailroom.calling, waiting, hline, hadmitted]
  rfl

/-- When no task is left either, all places are free. -/
theorem Idle.inFlight (h : m.Idle) (hkeeps : m.Keeps w 0) (htasks : m.tasks = []) :
    m.inFlight = 0 := by
  obtain ⟨hline, hadmitted, hdrained⟩ := front_eq_iff.1 h
  have hplaces := hkeeps.places
  rw [kept, hline, hadmitted, htasks, hdrained] at hplaces
  simp only [Waiter.keptBy_nil, List.length_nil] at hplaces
  unfold Mailroom.inFlight
  omega

/-! ### What becomes of the messages -/

/-- **A notice is neither dropped nor repeated.** Whatever happens in which order, there are never
more tasks than places; and when one who waits until no task is left returns, and no caller is
handing in a message, each message was sent once or counted once as failed, and no place is taken
unless another one waits like that. -/
theorem neither_dropped_nor_repeated (w : World) (moves : List Move) :
    let m := (start w).after moves
    m.tasks.length ≤ max w.notices.limit 1 ∧
      m.calls = (moves.filterMap Move.handedIn?).mapIdx (fun i e => ⟨i, e⟩) ∧
      (0 < m.drained → m.calling = [] →
        (m.move .returns).Settled w ∧
          ((m.move .returns).draining = 0 → (m.move .returns).inFlight = 0)) := by
  intro m
  have h : m.Keeps w 0 := (keeps_start w).after moves
  have hnodup : m.calls.Nodup := nodup_calls_after w moves
  refine ⟨h.tasks_le, ?_, fun hdrained hcalling => ?_⟩
  · have hcalls := calls_after (start w) moves
    simp only [start, List.length_nil, Nat.zero_add, List.nil_append] at hcalls
    exact hcalls
  · obtain ⟨-, htasks⟩ := h.empty hdrained
    have hsame := m.same_returns
    have hsettled := (settled_of_keeps h hnodup hcalling htasks).of_same hsame
    refine ⟨hsettled, fun hdraining => ?_⟩
    have hnone := hsettled.calling_eq_nil h.returns (hsame.calls ▸ hnodup)
    exact (idle_of_draining hnone hdraining).inFlight h.returns (hsame.tasks.trans htasks)

/-- One place, which two messages and one who waits until no task is left want: the first message is
sent at the second attempt, the other one fails for good. -/
theorem neither_dropped_nor_repeated_in_line :
    let w : World := { notices := { limit := 0, policy := ⟨2, Span.millis 200⟩ } }
    let a : Envelope := .blank (.ofMillis 0)
    let b := a.withTag "b"
    let moves : List Move := [.call a, .call b, .drain, .begins 0,
      .step 0 (some (.transport "busy")), .step 0 none, .pass 200, .step 0 none, .step 0 none,
      .step 0 none, .begins 0, .step 0 (some .closed), .step 0 none, .step 0 none]
    let m := (start w).after moves
    (0 < m.drained ∧ m.calling = []) ∧ m.tasks.length ≤ 1 ∧
      ((m.move .returns).sent = [⟨0, a⟩] ∧ (m.move .returns).failed = [⟨1, b⟩]) ∧
        (m.move .returns).Settled w ∧ (m.move .returns).inFlight = 0 := by
  intro w a b moves m
  have hwaited : 0 < m.drained ∧ m.calling = [] := ⟨by decide +kernel, by decide +kernel⟩
  obtain ⟨htasks, -, hsettled⟩ := neither_dropped_nor_repeated w moves
  obtain ⟨hall, hinFlight⟩ := hsettled hwaited.1 hwaited.2
  exact ⟨hwaited, htasks, ⟨by decide +kernel, by decide +kernel⟩, hall,
    hinFlight (by decide +kernel)⟩

end Mailroom

end Takeaway
