import Takeaway.Proofs.History

/-!
The engine accepts what it says. Main statement: every message that the engine sent is read as it
was made and handled with success whenever the store and the broker are in order, however late and
however often.
-/

namespace Takeaway

open World (Aside Says Orderly)

variable {rank : World.Rank} {w w' : World} {m : Menu} {e : Engine}

/-! ### What was said is true -/

/-- All messages that were sent or are under way are true. -/
def World.Truthful (m : Menu) (w : World) : Prop := ∀ x ∈ w.traffic, w.Vouches m x

/-- What an operation says. -/
theorem Operation.spoken (e : Engine) (w : World) (op : Operation) :
    Says (Deeds.said (op.trail e w)) w (op.run e w) := by
  have hleft : ∀ {ε α : Type} (x : ExceptT ε Flow α),
      Says (Deeds.said (Work.trail x w)) w (Work.left x w) := fun x =>
    (Flow.reaches_run .first x.run w).spoken
  cases op with
  | place customer items => exact hleft _
  | addInventory item q => exact hleft _
  | collect n => exact hleft _
  | requestSweep => exact hleft _
  | handle x =>
    rw [trail_handle]
    have h := (Flow.reaches_run .inTurn (e.response x) w).spoken.trans (e.aside_handled x w).toSays
    rwa [add_zero] at h
  | switchStore answers => exact World.says_of_same rfl rfl
  | switchBroker isUp => exact World.says_of_same rfl rfl
  | failSends count => exact World.says_of_same rfl rfl
  | rest wait limit => exact (w.aside_await .first wait limit).toSays
  | settle => exact (w.aside_passWhile _).toSays

/-- What is said in good conduct is true, and what was true stays true. -/
theorem World.Truthful.said {l : List Deed} (h : w.Truthful m) (hl : Conduct m l w w')
    (hsaid : Says (Deeds.said l) w w') : w'.Truthful m := by
  intro x hx
  rcases Multiset.mem_add.1 (Multiset.mem_of_le hsaid.bound hx) with hx | hx
  · exact (h x hx).onward hl.onward
  · exact hl.vouched x hx

theorem World.truthful_after (e : Engine) (ops : List Operation) :
    (e.after ops).Truthful e.menu := by
  induction ops using List.reverseRecOn with
  | nil => exact fun x hx => absurd hx (Multiset.notMem_zero x)
  | append_singleton ops op ih =>
    rw [Engine.after_append]
    exact ih.said ((World.orderly_after e ops).conduct op) (op.spoken e _)

/-- A true message tells something, of a stored order if of any. -/
theorem World.Vouches.tiding {x : Envelope} (h : w.Vouches m x) :
    ∃ (t : Tiding) (time : Timestamp), x = t.envelope time ∧
      ∀ n, t.number? = some n → ∃ o, w.orders.find? n = some o := by
  cases h with
  | @orderPlaced n o ho time =>
    exact ⟨.orderPlaced n, time, rfl, by rintro _ ⟨⟩; exact ⟨o, ho⟩⟩
  | @orderCollected n o ho hpacked time =>
    exact ⟨.orderCollected n, time, rfl, by rintro _ ⟨⟩; exact ⟨o, ho⟩⟩
  | sweepRequested time => exact ⟨.sweepRequested, time, rfl, by rintro _ ⟨⟩⟩
  | @itemAdded i hi time => exact ⟨.itemAdded i, time, rfl, by rintro _ ⟨⟩⟩
  | @itemRequested n o i ho hi key time =>
    exact ⟨.itemRequested n i key, time, rfl, by rintro _ ⟨⟩; exact ⟨o, ho⟩⟩
  | @statusUpdated n o ho s time =>
    exact ⟨.statusUpdated n s, time, rfl, by rintro _ ⟨⟩; exact ⟨o, ho⟩⟩

/-! ### Jobs that are done -/

namespace Coverage

variable {c : Coverage} (d : Deadline)

theorem ends_coverNew_ok (hw : w.Orderly c.menu) (hf : w.Flowing)
    (ha : w.store.store.answers = true) {n : OrderNumber} {o : Order}
    (ho : w.orders.find? n = some o) :
    WorkEnds rank (c.coverNew d n) w fun r _ => ∃ out, r = .ok out := by
  unfold coverNew
  refine WorkEnds.bind (ends_load d hw.script n) ?_ ?_
  · rintro o' w ⟨rfl, hload⟩
    obtain ⟨-, ho'⟩ := (hload o').1 rfl
    obtain ⟨-, rfl⟩ := hw.sound n o' ho'
    split
    · refine (ends_cover d hw ha ho' fun i hi => Order.requests_iff_mem_names.2 hi).imp ?_
      rintro r w' ⟨new, -, hok⟩
      exact (hok hf).1
    · exact workEnds_pure ⟨_, rfl⟩
  · rintro f w ⟨rfl, hload⟩
    cases (hload o).2 ⟨ha, ho⟩

end Coverage

/-- An order that is ready, or was handed over, can be handed over. -/
theorem Order.collect_ok {o : Order} (h : o.status.isOpen = false) :
    ∃ new, o.collect = .ok new := by
  unfold Order.collect
  cases hs : o.status with
  | ready => exact ⟨_, rfl⟩
  | collected => exact ⟨_, rfl⟩
  | requested =>
    rw [hs] at h
    cases h
  | inProgress =>
    rw [hs] at h
    cases h

namespace Engine

theorem ends_handOver_ok (hs : w.store.script = []) (ha : w.store.store.answers = true)
    {n : OrderNumber} {o : Order} (ho : w.orders.find? n = some o)
    (hpacked : o.status.isOpen = false) (d : Deadline) :
    WorkEnds rank (handOver n d) w fun r _ => r = .ok () := by
  obtain ⟨new, hnew⟩ := Order.collect_ok hpacked
  unfold handOver
  refine WorkEnds.bind (Coverage.ends_load d hs n) ?_ ?_
  · rintro o' w ⟨rfl, hload⟩
    obtain ⟨-, ho'⟩ := (hload o').1 rfl
    obtain rfl := Option.some.inj (ho.symm.trans ho')
    rw [hnew]
    refine workEnds_bind_ofRefusal ?_ (by rintro _ ⟨⟩)
    rintro _ ⟨⟩
    split
    · refine WorkEnds.bind (ends_saveOrder_written hs ha new d) ?_ (by rintro _ _ ⟨⟨⟩, -⟩)
      rintro _ w₁ -
      refine Flow.Ends.bind_lift (p := fun _ _ => True) (Flow.ends_ask trivial) ?_
      rintro time w₂ -
      exact workEnds_lift ((ends_notify _).imp fun _ _ _ => rfl)
    · exact workEnds_pure rfl
  · rintro f w ⟨rfl, hload⟩
    cases (hload o).2 ⟨ha, ho⟩

/-- **A true message asks for a job that is done**, when the store and the broker are in order. -/
theorem ends_vouched (hk : e.settings.kitchen = true) (hw : w.Orderly e.menu) (hf : w.Flowing)
    (ha : w.store.store.answers = true) (hfits : ∀ n o, w.orders.find? n = some o → n.Fits)
    {x : Envelope} (hx : w.Vouches e.menu x) :
    ∃ j, e.job x = .ok j ∧ ∀ d, WorkEnds rank (j.work e d) w fun r _ => r = .ok () := by
  cases hx with
  | orderPlaced ho t =>
    have hn := hfits _ _ ho
    refine ⟨_, job_cover (Envelope.event_orderPlaced ..) (Envelope.orderNumber_orderPlaced t hn),
      fun d => ?_⟩
    refine WorkEnds.bind (e.coverage.ends_coverNew_ok d hw hf ha ho)
      (fun _ _ _ => workEnds_pure rfl) ?_
    rintro f w' ⟨out, ⟨⟩⟩
  | orderCollected ho hpacked t =>
    have hn := hfits _ _ ho
    exact ⟨_, job_handOver (Envelope.event_orderCollected ..)
      (Envelope.orderNumber_orderCollected t hn), fun d =>
        ends_handOver_ok hw.script ha ho hpacked d⟩
  | sweepRequested t =>
    refine ⟨_, job_sweep (Envelope.event_sweepRequested t), fun d => ?_⟩
    refine WorkEnds.bind (e.coverage.ends_sweep d hw) (fun _ _ _ => workEnds_pure rfl) ?_
    rintro f w' ⟨new, -, hok⟩
    obtain ⟨outs, ⟨⟩⟩ := (hok hf ha).1
  | itemAdded hi t =>
    refine ⟨_, job_restock (Envelope.event_itemAdded _ t) (Envelope.lines_itemAdded _ t),
      fun d => ?_⟩
    refine (ends_restockAll (c := e.coverage) d hw _).imp ?_
    rintro r w' ⟨new, -, hok⟩
    exact (hok hf ha).1
  | @itemRequested n o i ho hi key t =>
    have hn := hfits _ _ ho
    refine ⟨_, job_prepare hk (Envelope.event_itemRequested i key t n)
      (Envelope.orderNumber_itemRequested i key t hn) (Envelope.lines_itemRequested i key t n),
      fun d => ?_⟩
    have hplan : ∃ p, Kitchen.plan e.menu e.settings.timeScale [i] = .ok p :=
      Kitchen.plan_of_known _ (List.forall_mem_singleton.2 ⟨_, hi⟩)
    obtain ⟨p, hp⟩ := hplan
    refine (Kitchen.ends_prepare e.menu e.settings.timeScale [i]).imp ?_
    rintro r w' (⟨-, hr, -⟩ | ⟨⟨f, hf⟩, -⟩)
    · exact hr
    · rw [hp] at hf
      cases hf
  | statusUpdated ho s t =>
    have hn := hfits _ _ ho
    exact ⟨_, job_record (Envelope.event_statusUpdated s t _) (Envelope.status_statusUpdated s t _)
      (Envelope.orderNumber_statusUpdated s t hn), fun d => workEnds_lift (Flow.ends_ask rfl)⟩

/-! ### Main statement -/

theorem handle_ok {x : Envelope} {j : Job} (hj : e.job x = .ok j)
    (h : ∀ d, WorkEnds .inTurn (j.work e d) w fun r _ => r = .ok ()) :
    (e.handle x w).1 = [⟨j.kind, none⟩] := by
  obtain ⟨-, -, rfl, -, hr⟩ := handled_of_job hj h
  exact hr

/-- **The engine accepts what it says.** With the kitchen at work, every message that the engine
sent is handled with success at any later moment at which the store and the broker are in order,
and what is read from it is what the engine made it of. -/
theorem accepts_said (e : Engine) (hk : e.settings.kitchen = true) (ops ops' : List Operation)
    (hstore : (e.after (ops ++ ops')).store.store.answers = true)
    (hup : (e.after (ops ++ ops')).broker.isUp = true)
    (hfailing : (e.after (ops ++ ops')).broker.failing = 0)
    (hfits : ∀ n o, (e.after (ops ++ ops')).orders.find? n = some o → n.Fits) {x : Envelope}
    (hx : x ∈ (e.after ops).broker.history.map (·.envelope)) :
    (∃ r, (e.handle x (e.after (ops ++ ops'))).1 = [r] ∧ r.succeeded = true) ∧
      ∃ (t : Tiding) (time : Timestamp), x = t.envelope time ∧ x.event = .ok t.event ∧
        (∀ n, t.number? = some n → x.orderNumber = .ok n) ∧
        (∀ i, t.item? = some i → x.decode Item.linesReader = .ok [i]) ∧
        ∀ s, t.status? = some s → x.decode Status.updateReader = .ok s := by
  have hw := World.orderly_after e (ops ++ ops')
  have hvouched : (e.after (ops ++ ops')).Vouches e.menu x := by
    have hnow := World.truthful_after e ops x (Multiset.mem_add.2 (.inl hx))
    refine hnow.onward ?_
    rw [after_append]
    exact ((World.orderly_after e ops).conduct_run ops').onward
  constructor
  · obtain ⟨j, hj, hwork⟩ :=
      ends_vouched hk hw ⟨hup, hfailing, hw.records⟩ hstore hfits hvouched
    exact ⟨_, handle_ok hj hwork, rfl⟩
  · obtain ⟨t, time, rfl, hnumber⟩ := hvouched.tiding
    refine ⟨t, time, rfl, t.event_envelope time, fun n hn => ?_,
      fun i hi => Tiding.lines_envelope time hi, fun s hs => Tiding.status_envelope time hs⟩
    obtain ⟨o, ho⟩ := hnumber n hn
    exact Tiding.orderNumber_envelope time hn (hfits n o ho)

/-- The placement of an order is handled once more when the order is long ready. -/
theorem accepts_said_twice : ∃ r,
    (handle {} (.orderPlaced ⟨1⟩ (Timestamp.ofMillis 0)) (after {} ([.place ⟨7⟩
      [⟨"water", Quantity.one⟩]] ++ [.handle (.orderPlaced ⟨1⟩ (Timestamp.ofMillis 0))]))).1 = [r] ∧
      r.succeeded = true := by
  have hnumbers : ((after {} ([.place ⟨7⟩ [⟨"water", Quantity.one⟩]] ++
      [.handle (.orderPlaced ⟨1⟩ (Timestamp.ofMillis 0))])).orders.entries.all fun x =>
        Text.fitsSigned 64 x.1.value) = true := by decide +kernel
  exact (accepts_said {} (by decide) [.place ⟨7⟩ [⟨"water", Quantity.one⟩]]
    [.handle (.orderPlaced ⟨1⟩ (Timestamp.ofMillis 0))] (by decide +kernel) (by decide +kernel)
    (by decide +kernel) (fun n y hy => List.all_eq_true.1 hnumbers _ (Index.find?_eq_some_iff.1 hy))
    (by decide +kernel)).1

end Engine

end Takeaway
