import Takeaway.Proofs.Engine.Failure

/-!
Placing an order when nobody else is at work, in every detail. Main statements: sending ends with a
last attempt, and when that fails no message at all was sent meanwhile; and an order whose lines
are accepted is stored under the next number if only the store answers, whether or not it could be
told of.
-/

namespace Takeaway

open World (Aside Lasts)

variable {rank : World.Rank} {w w' w'' v : World}

/-! ### Attempts to send -/

namespace World

/-- Attempts to send fail. -/
def Blocked (w : World) : Prop := w.broker.isUp = false ∨ 0 < w.broker.failing

/-- An attempt fails when sending is blocked, and delivers the message otherwise. -/
theorem send_blocked_or (w : World) (x : Envelope) :
    (∃ f, (w.send x).1 = .error f ∧ w.Blocked ∧
      (w.send x).2.broker.history = w.broker.history) ∨
    ¬ w.Blocked ∧ w.send x = (.ok (), { w with broker := w.broker.deliver ⟨w.topic, x⟩ }) := by
  unfold Blocked send Broker.send Broker.attempt
  by_cases hup : w.broker.isUp = true
  · cases hf : w.broker.failing with
    | zero => exact .inr (by simp [hup])
    | succ n => exact .inl (by simp [hup])
  · exact .inl (by simp [hup])

/-- As far as sending goes, from the one world to the other time was waited out: if sending is
blocked in the end, it was all the while. -/
structure Hushed (w v : World) : Prop where
  topic : v.topic = w.topic
  blocked : v.Blocked → w.Blocked ∧ v.broker.history = w.broker.history

theorem lasts_hushed (w : World) : Lasts w.Hushed where
  send v x h := by
    refine ⟨h.topic, fun hb => ?_⟩
    rcases v.send_blocked_or x with ⟨f, -, hv, hhistory⟩ | ⟨hv, heq⟩
    · obtain ⟨hw, hbefore⟩ := h.blocked hv
      exact ⟨hw, hhistory.trans hbefore⟩
    · rw [heq] at hb
      exact absurd hb hv
  count v s _ h := ⟨h.topic, h.blocked⟩
  moved v tick notices h := ⟨h.topic, h.blocked⟩

/-- Between two attempts to send nothing is done, but time may pass. -/
structure Retried (w v : World) : Prop extends Aside 0 w v, Hushed w v

namespace Retried

protected theorem refl (w : World) : w.Retried w where
  toAside := Aside.refl w
  topic := rfl
  blocked h := ⟨h, rfl⟩

protected theorem trans (h : w.Retried w') (h' : w'.Retried w'') : w.Retried w'' where
  toAside := h.toAside.trans_zero h'.toAside
  topic := h'.topic.trans h.topic
  blocked hb := by
    obtain ⟨hb', hhistory'⟩ := h'.blocked hb
    obtain ⟨hb, hhistory⟩ := h.blocked hb'
    exact ⟨hb, hhistory'.trans hhistory⟩

theorem of_await (w : World) (rank : Rank) (wait : Wait) (limit : Option Nat) :
    w.Retried (w.await rank wait limit).2 where
  toAside := w.aside_await rank wait limit
  toHushed := (lasts_hushed w).await rank wait limit (Retried.refl w).toHushed

/-- An attempt that failed is followed by a pause. -/
theorem of_send {x : Envelope} {f : MessageFailure} (h : w.send x = (.error f, w')) :
    w.Retried w' where
  toAside := (aside_send_error h).2
  toHushed := by
    have hsend := (lasts_hushed w).send w x (Retried.refl w).toHushed
    rwa [h] at hsend

end Retried

theorem retried_count (w : World) (s : Series) (n : Nat) : w.Retried (w.count s n) where
  toAside := aside_count w s n
  topic := rfl
  blocked h := ⟨h, rfl⟩

end World

open World (Retried)

/-- How sending ended: the last attempt succeeded, or it failed as well. -/
def Concluded (x : Envelope) (v : World) (r : Except MessageFailure Unit) (w' : World) : Prop :=
  r = .ok () ∧ v.send x = (.ok (), w') ∨
    (∃ f, r = .error f) ∧ ∃ f, v.send x = (.error f, w')

/-- Between two attempts a failure is counted, and then there is a pause. -/
theorem ends_again (s : Span) : Flow.Ends rank (do Flow.count .sendRetries; Flow.pause s) w
    fun _ w' => w.Retried w' := by
  refine Flow.Ends.bind (p := fun _ v => w.Retried v)
    (Flow.ends_ask (World.retried_count w .sendRetries 1)) ?_
  intro _ v hv
  exact Flow.ends_wait (Flow.ends_done (hv.trans (Retried.of_await v rank (.pause s) none)))

/-- **Sending ends with a last attempt**, until which nothing else is done. -/
theorem ends_publish (p : RetryPolicy) (x : Envelope) :
    (publish p x).Ends rank w fun r w' => ∃ v, w.Retried v ∧ Concluded x v r w' := by
  unfold publish
  generalize p.limit - 1 = left
  generalize 1 = i
  have hsend : ∀ w : World, (Flow.ask (.send x)).Ends rank w fun r w' => w.send x = (r, w') :=
    fun w => Flow.ends_ask rfl
  induction left generalizing i w with
  | zero =>
    refine Flow.Ends.bind (hsend w) ?_
    rintro (f | ⟨⟩) w₁ h₁
    · exact ⟨w, Retried.refl w, .inr ⟨⟨_, rfl⟩, f, h₁⟩⟩
    · exact ⟨w, Retried.refl w, .inl ⟨rfl, h₁⟩⟩
  | succ left ih =>
    refine Flow.Ends.bind (hsend w) ?_
    rintro (f | ⟨⟩) w₁ h₁
    · dsimp only
      split
      · refine Flow.Ends.bind (ends_again p.delay) ?_
        rintro _ w₂ h₂
        refine (ih (i + 1)).imp ?_
        rintro r w' ⟨v, hv, hlast⟩
        exact ⟨v, ((Retried.of_send h₁).trans h₂).trans hv, hlast⟩
      · exact ⟨w, Retried.refl w, .inr ⟨⟨f, rfl⟩, f, h₁⟩⟩
    · exact ⟨w, Retried.refl w, .inl ⟨rfl, h₁⟩⟩

/-- What was sent when the last attempt succeeded: the message, after notices that were under
way. -/
theorem World.Retried.sent (h : w.Retried v) (hr : w.broker.records = true) {x : Envelope}
    (hlast : v.send x = (.ok (), w')) : w'.store = w.store ∧ w'.stock = w.stock ∧
      ∃ past, w'.broker.history = w.broker.history ++ past ++ [⟨w.topic, x⟩] ∧
        ∀ d ∈ past, d.envelope ∈ w.underWay := by
  rcases v.send_blocked_or x with ⟨f, hf, -⟩ | ⟨-, heq⟩ <;> rw [hlast] at *
  · cases hf
  · cases heq
    refine ⟨h.store, h.stock, ?_⟩
    obtain ⟨past, hpast⟩ := h.history
    refine ⟨past, ?_, fun d hd => ?_⟩
    · show (v.broker.deliver ⟨v.topic, x⟩).history = _
      unfold Broker.deliver
      rw [if_pos (h.records.trans hr), h.topic, hpast]
    · have hle := h.sent_le
      unfold World.sentUntil at hle
      rw [add_zero, ← hpast, List.drop_left] at hle
      refine Multiset.mem_of_le hle (Multiset.mem_add.2 (.inl ?_))
      exact List.mem_map.2 ⟨d, hd, rfl⟩

/-- When the last attempt failed, nothing was sent. -/
theorem World.Retried.unsent (h : w.Retried v) {x : Envelope} {f : MessageFailure}
    (hlast : v.send x = (.error f, w')) : w'.store = w.store ∧ w'.stock = w.stock ∧
      w'.broker.history = w.broker.history := by
  have haside := (World.aside_send_error hlast).2
  refine ⟨haside.store.trans h.store, haside.stock.trans h.stock, ?_⟩
  rcases v.send_blocked_or x with ⟨g, -, hb, hhistory⟩ | ⟨-, heq⟩ <;> rw [hlast] at *
  · exact hhistory.trans (h.blocked hb).2
  · cases heq

/-! ### Placing an order -/

/-- The order that is placed next. -/
def World.nextOrder (w : World) (customer : CustomerId) (items : List Item) : Order :=
  Order.place ⟨w.store.store.last + 1⟩ customer items w.time

/-- The world in which that order was stored. -/
def World.placed (w : World) (customer : CustomerId) (items : List Item) : World :=
  (w.numberGiven.written (w.nextOrder customer items)).count .ordersPlaced 1

/-- Nothing stands under the next number, if no stored order has a number beyond the last one. -/
theorem World.find?_nextOrder (hw : ∀ n o, w.orders.find? n = some o → n.value ≤ w.store.store.last)
    (customer : CustomerId) (items : List Item) :
    w.orders.find? (w.nextOrder customer items).number = none := by
  cases h : w.orders.find? (w.nextOrder customer items).number with
  | none => rfl
  | some o =>
    have hle := hw _ o h
    have hnext : (w.nextOrder customer items).number.value = w.store.store.last + 1 := rfl
    omega

/-- **An order whose lines are accepted is stored**, unless the store does not answer. -/
theorem Desk.ends_place_accepted (hs : w.store.script = []) {menu : Menu} {items : List Item}
    (hc : check menu items = .ok ()) (customer : CustomerId) :
    WorkEnds rank (place menu customer items) w fun r w' =>
      w.store.store.answers = false ∧ (∃ out, r = .error (.outage out)) ∧ w' = w ∨
      w.store.store.answers = true ∧ r = .ok (w.nextOrder customer items) ∧
        w' = w.placed customer items := by
  unfold place
  rw [hc]
  refine WorkEnds.bind (p := fun r w' => r = .ok () ∧ w' = w) ⟨rfl, rfl⟩ ?_
    (by rintro _ _ ⟨⟨⟩, -⟩)
  rintro _ w ⟨-, rfl⟩
  by_cases ha : w.store.store.answers = true
  · have hnumber : WorkEnds rank (ofStore nextNumber) w fun r w' =>
        r = .ok ⟨w.store.store.last + 1⟩ ∧ w' = w.numberGiven := by
      refine (workAtOnce_mapError _ ((atOnce_nextNumber_given hs ha).imp ?_)).ends rank
      rintro _ _ ⟨rfl, rfl⟩
      exact ⟨rfl, rfl⟩
    refine WorkEnds.bind hnumber ?_ (by rintro _ _ ⟨⟨⟩, -⟩)
    rintro _ _ ⟨⟨⟩, rfl⟩
    refine Flow.Ends.bind_lift (p := fun time w' => time = w.time ∧ w' = w.numberGiven)
      (Flow.ends_ask ⟨rfl, rfl⟩) ?_
    rintro _ _ ⟨rfl, rfl⟩
    have hsave : WorkEnds rank (ofStore (saveOrder (w.nextOrder customer items))) w.numberGiven
        fun r w' => r = .ok () ∧ w' = w.numberGiven.written (w.nextOrder customer items) := by
      have hwritten := atOnce_saveOrder_written (w := w.numberGiven) hs ha
        (w.nextOrder customer items)
      refine (workAtOnce_mapError _ (hwritten.imp ?_)).ends rank
      rintro _ _ ⟨rfl, rfl⟩
      exact ⟨rfl, rfl⟩
    refine WorkEnds.bind hsave ?_ (by rintro _ _ ⟨⟨⟩, -⟩)
    rintro _ _ ⟨-, rfl⟩
    refine Flow.Ends.bind_lift (p := fun _ w' => w' = w.placed customer items)
      (Flow.ends_ask rfl) ?_
    rintro _ _ rfl
    exact workEnds_pure (.inr ⟨ha, rfl, rfl⟩)
  · have hoff : WorkEnds rank (ofStore nextNumber) w fun r w' =>
        (∃ out, r = .error (.outage out)) ∧ w' = w := by
      refine (workAtOnce_mapError _ ((atOnce_nextNumber hs).imp ?_)).ends rank
      rintro r w' heq
      obtain ⟨f, hf⟩ := w.perform_nextNumber_off hs (Bool.eq_false_iff.2 ha)
      rw [hf] at heq
      cases heq
      exact ⟨⟨f, rfl⟩, rfl⟩
    refine WorkEnds.bind hoff ?_ ?_
    · rintro _ _ ⟨⟨out, ⟨⟩⟩, -⟩
    · rintro f w' ⟨⟨out, hout⟩, rfl⟩
      cases hout
      exact .inl ⟨Bool.eq_false_iff.2 ha, ⟨out, rfl⟩, rfl⟩

/-- Placing an order leaves those that are stored as they are, and the new one was not stored. -/
theorem Desk.ends_place_apart (hs : w.store.script = [])
    (hw : ∀ n o, w.orders.find? n = some o → n.value ≤ w.store.store.last) (menu : Menu)
    (customer : CustomerId) (items : List Item) :
    WorkEnds rank (place menu customer items) w fun r w' =>
      (∀ n o, w.orders.find? n = some o → w'.orders.find? n = some o) ∧
      ∀ o, r = .ok o →
        w.orders.find? o.number = none ∧ w'.orders.find? o.number = some (o.touch w.time) := by
  cases hc : check menu items with
  | error refusal =>
    unfold place
    rw [hc]
    exact ⟨fun _ _ ho => ho, by rintro _ ⟨⟩⟩
  | ok u =>
    have hnew := World.find?_nextOrder hw customer items
    refine (ends_place_accepted hs hc customer).imp ?_
    rintro r w' (⟨-, ⟨out, rfl⟩, rfl⟩ | ⟨-, rfl, rfl⟩)
    · exact ⟨fun _ _ ho => ho, by rintro _ ⟨⟩⟩
    · refine ⟨fun n o ho => ?_, ?_⟩
      · refine (Index.find?_insert_of_ne _ _ ?_).trans ho
        rintro rfl
        exact absurd (hnew.symm.trans ho) (by rintro ⟨⟩)
      · rintro _ ⟨⟩
        exact ⟨hnew, Index.find?_insert_self _ _ _⟩

end Takeaway
