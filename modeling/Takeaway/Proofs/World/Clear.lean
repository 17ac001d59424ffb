import Takeaway.Proofs.Message.Broker
import Takeaway.Proofs.World.Clock

/-!
Notices where sending works: each is delivered at its next turn, and none goes to sleep. Main
statements: as long as those asleep leave room for one more notice, nobody has to wait until one can
be handed over, and they go on to leave it; and when all of them have settled, each was delivered.
-/

namespace Takeaway

/-! ### Deliveries -/

theorem Broker.deliverAll_append (b : Broker) (l l' : List Delivery) :
    b.deliverAll (l ++ l') = (b.deliverAll l).deliverAll l' := List.foldl_append

theorem Broker.deliverAll_same (b : Broker) (l : List Delivery) :
    (b.deliverAll l).isUp = b.isUp ∧ (b.deliverAll l).failing = b.failing := by
  induction l generalizing b with
  | nil => exact ⟨rfl, rfl⟩
  | cons d r ih => exact ih (b.deliver d)

namespace World

variable {w w' w'' : World} {a b : Multiset Envelope}

/-- Every attempt to send succeeds. -/
structure Sending (w : World) : Prop where
  isUp : w.broker.isUp = true
  failing : w.broker.failing = 0

theorem send_of_sending (hw : w.Sending) (e : Envelope) :
    w.send e = (.ok (), { w with broker := w.broker.deliver ⟨w.topic, e⟩ }) := by
  simp [send, Broker.send, Broker.attempt, hw.isUp, hw.failing]

/-- The messages `a` come to those under way, and what is no longer under way was delivered. -/
structure Conveys (a : Multiset Envelope) (w w' : World) : Prop where
  topic : w'.topic = w.topic
  sent : ∃ sent : List Envelope,
    w'.broker = w.broker.deliverAll (sent.map (Delivery.mk w.topic)) ∧
      (sent : Multiset Envelope) + w'.underWay = w.underWay + a

namespace Conveys

/-- Where the broker and the messages under way are the same, nothing is conveyed. -/
theorem of_same (ht : w'.topic = w.topic) (hb : w'.broker = w.broker)
    (hn : w'.underWay = w.underWay) : Conveys 0 w w' :=
  ⟨ht, [], hb, by rw [hn, Multiset.coe_nil, zero_add, add_zero]⟩

protected theorem refl (w : World) : Conveys 0 w w := .of_same rfl rfl rfl

protected theorem trans (h : Conveys a w w') (h' : Conveys b w' w'') : Conveys (a + b) w w'' := by
  obtain ⟨sent, hsent, hway⟩ := h.sent
  obtain ⟨sent', hsent', hway'⟩ := h'.sent
  refine ⟨h'.topic.trans h.topic, sent ++ sent', ?_, ?_⟩
  · rw [hsent', hsent, h.topic, List.map_append, Broker.deliverAll_append]
  · rw [← Multiset.coe_add, add_assoc, hway', ← add_assoc, hway, add_assoc]

theorem zero_trans (h : Conveys 0 w w') (h' : Conveys b w' w'') : Conveys b w w'' := by
  simpa using h.trans h'

theorem sending (h : Conveys a w w') (hw : w.Sending) : w'.Sending := by
  obtain ⟨sent, hsent, -⟩ := h.sent
  obtain ⟨hup, hfailing⟩ := w.broker.deliverAll_same (sent.map (Delivery.mk w.topic))
  exact ⟨by rw [hsent, hup, hw.isUp], by rw [hsent, hfailing, hw.failing]⟩

end Conveys

/-! ### Turns -/

theorem turn_of_sending (hw : w.Sending) (e : Envelope) (left : Nat) :
    w.turn e left = ({ w with broker := w.broker.deliver ⟨w.topic, e⟩ }, none) := by
  cases left <;> unfold turn <;> rw [send_of_sending hw]

/-- The world with some more messages delivered. -/
def posted (w : World) (sent : List Envelope) : World :=
  { w with broker := w.broker.deliverAll (sent.map (Delivery.mk w.topic)) }

theorem turns_of_sending (hw : w.Sending) (l : List Notice) :
    w.turns l = w.posted (l.map (·.envelope)) := by
  induction l generalizing w with
  | nil => rfl
  | cons n r ih =>
    unfold turns
    rw [turn_of_sending hw]
    exact ih (w := { w with broker := w.broker.deliver ⟨w.topic, n.envelope⟩ })
      ⟨hw.isUp, hw.failing⟩

/-- From the one world to the other no notice went to sleep or was handed over. -/
structure Wakes (w w' : World) : Prop extends Conveys 0 w w' where
  limit : w'.notices.limit = w.notices.limit
  asleep : w'.notices.asleep.length ≤ w.notices.asleep.length

namespace Wakes

protected theorem refl (w : World) : w.Wakes w := ⟨.refl w, rfl, le_rfl⟩

protected theorem trans (h : w.Wakes w') (h' : w'.Wakes w'') : w.Wakes w'' :=
  ⟨h.toConveys.zero_trans h'.toConveys, h'.limit.trans h.limit, h'.asleep.trans h.asleep⟩

theorem turnReady (hw : w.Sending) : w.Wakes w.turnReady ∧ w.turnReady.notices.ready = [] := by
  have heq := turns_of_sending (w := { w with notices := { w.notices with ready := [] } })
    ⟨hw.isUp, hw.failing⟩ w.notices.ready
  unfold World.turnReady
  rw [heq]
  refine ⟨⟨⟨rfl, w.notices.ready.map (·.envelope), rfl, ?_⟩, rfl, le_rfl⟩, rfl⟩
  show messages w.notices.ready + (0 + messages (w.notices.asleep.map (·.2))) = w.underWay + 0
  rw [zero_add, add_zero]
  rfl

/-- The first sleepers are delivered, and no longer asleep. -/
theorem wake (hw : w.Sending) (n : Nat) : w.Wakes (w.wake n) ∧
    (w.wake n).notices = { w.notices with asleep := w.notices.asleep.drop n } := by
  have heq := turns_of_sending
    (w := { w with notices := { w.notices with asleep := w.notices.asleep.drop n } })
    ⟨hw.isUp, hw.failing⟩ ((w.notices.asleep.take n).map (·.2))
  unfold World.wake
  rw [heq]
  refine ⟨⟨⟨rfl, ((w.notices.asleep.take n).map (·.2)).map (·.envelope), rfl, ?_⟩, rfl, ?_⟩, rfl⟩
  · have hsplit : messages (w.notices.asleep.map (·.2)) =
        messages ((w.notices.asleep.take n).map (·.2)) +
          messages ((w.notices.asleep.drop n).map (·.2)) := by
      unfold messages
      rw [Multiset.coe_add, ← List.map_append, ← List.map_append, List.take_append_drop]
    unfold underWay
    rw [hsplit]
    unfold messages
    abel
  · show (w.notices.asleep.drop n).length ≤ _
    rw [List.length_drop]
    exact Nat.sub_le ..

theorem reach (w : World) (tick : Nat) : w.Wakes (w.reach tick) :=
  ⟨.of_same rfl rfl rfl, rfl, le_rfl⟩

theorem advance (hw : w.Sending) : w.Wakes w.advance := by
  unfold World.advance
  split
  · exact .refl w
  · have hreach := reach w (by assumption : Nat × Notice).1
    exact hreach.trans (wake (hreach.sending hw) _).1

theorem advanceWhile (hw : w.Sending) (test : World → Bool) (turns : Nat) :
    w.Wakes (advanceWhile test turns w) := by
  induction turns generalizing w with
  | zero => exact .refl w
  | succ turns ih =>
    unfold World.advanceWhile
    split
    · exact (advance hw).trans (ih ((advance hw).sending hw))
    · exact .refl w

theorem passWhile (hw : w.Sending) (test : World → Bool) : w.Wakes (w.passWhile test) := by
  obtain ⟨hready, -⟩ := turnReady hw
  exact hready.trans (advanceWhile (hready.sending hw) test _)

theorem rouse (w : World) : w.Wakes w.rouse := by
  refine ⟨.of_same rfl rfl ?_, rfl, ?_⟩
  · show messages (w.notices.ready ++ (w.notices.asleep.take (w.dueBy w.now)).map (·.2)) +
      messages ((w.notices.asleep.drop (w.dueBy w.now)).map (·.2)) = w.underWay
    unfold underWay messages
    rw [Multiset.coe_add, Multiset.coe_add, ← List.map_append, List.append_assoc, ← List.map_append,
      List.take_append_drop, List.map_append]
  · show (w.notices.asleep.drop _).length ≤ _
    rw [List.length_drop]
    exact Nat.sub_le ..

theorem passUntil (hw : w.Sending) (rank : Rank) (tick : Nat) :
    w.Wakes (w.passUntil rank tick) := by
  unfold World.passUntil
  have hpass := passWhile hw fun v =>
    v.notices.asleep.head?.any fun s => decide (s.1 < tick)
  have hreach := hpass.trans (reach _ tick)
  have hwake := fun n => hreach.trans (wake (hreach.sending hw) n).1
  exact (hwake _).trans (rouse _)

theorem passForRoom (hw : w.Sending) : w.Wakes w.passForRoom := by
  unfold World.passForRoom
  split
  · exact .refl w
  · exact passWhile hw _

theorem await (hw : w.Sending) (rank : Rank) (wt : Wait) (limit : Option Nat) :
    w.Wakes (w.await rank wt limit).2 := by
  unfold World.await
  split
  · exact .refl w
  · exact passUntil hw rank _
  · exact passForRoom hw
  · exact .refl w

end Wakes

/-! ### Room for one more notice -/

/-- Sending works, and those asleep leave room for one more notice. -/
structure Clear (w : World) : Prop extends Sending w where
  room : w.notices.asleep.length < max w.notices.limit 1

namespace Clear

theorem wakes (hw : w.Clear) (h : w.Wakes w') : w'.Clear where
  toSending := h.sending hw.toSending
  room := by
    rw [h.limit]
    exact h.asleep.trans_lt hw.room

/-- **Nobody has to wait for room**: those that are ready are sent at once. -/
theorem passForRoom_now (hw : w.Clear) : w.passForRoom.now = w.now := by
  unfold World.passForRoom
  split
  · rfl
  · obtain ⟨hwakes, hready⟩ := Wakes.turnReady hw.toSending
    have hroom : w.turnReady.notices.hasRoom = true := by
      have hlt := (hw.wakes hwakes).room
      unfold Notices.hasRoom Notices.underWay
      rw [hready]
      exact decide_eq_true (by simpa using hlt)
    have hstay : ∀ turns, World.advanceWhile (fun v => !v.notices.hasRoom) turns w.turnReady =
        w.turnReady := fun turns => by
      cases turns with
      | zero => rfl
      | succ turns =>
        unfold World.advanceWhile
        rw [hroom, Bool.not_true, Bool.and_false]
        rfl
    unfold World.passWhile
    rw [hstay]
    exact turns_now _ _

end Clear

/-! ### When all have settled -/

theorem length_le_turnsLeft (n : Notices) : n.asleep.length ≤ n.turnsLeft := by
  unfold Notices.turnsLeft
  induction n.asleep with
  | nil => exact Nat.le_refl 0
  | cons s r ih =>
    rw [List.length_cons, List.foldr_cons]
    omega

theorem advance_of_sending (hw : w.Sending) : w.advance.notices.ready = w.notices.ready ∧
    (w.notices.asleep ≠ [] → w.advance.notices.asleep.length < w.notices.asleep.length) := by
  unfold World.advance
  split
  · next hnone => exact ⟨rfl, fun h => absurd (List.head?_eq_none_iff.1 hnone) h⟩
  · next s hs =>
    rw [(Wakes.wake ((Wakes.reach w s.1).sending hw) _).2]
    refine ⟨rfl, fun _ => ?_⟩
    obtain ⟨r, hr⟩ : ∃ r, w.notices.asleep = s :: r := List.head?_eq_some_iff.1 hs
    have hdue : w.dueBy s.1 = (r.takeWhile fun t => decide (t.1 ≤ s.1)).length + 1 := by
      unfold dueBy
      rw [hr, List.takeWhile_cons_of_pos (by simp), List.length_cons]
    show (w.notices.asleep.drop (w.dueBy s.1)).length < _
    rw [List.length_drop, hdue, hr, List.length_cons]
    omega

theorem advanceWhile_of_sending (turns : Nat) (hw : w.Sending) (hready : w.notices.ready = [])
    (hlen : w.notices.asleep.length ≤ turns) :
    (advanceWhile (fun _ => true) turns w).notices.ready = [] ∧
      (advanceWhile (fun _ => true) turns w).notices.asleep = [] := by
  induction turns generalizing w with
  | zero => exact ⟨hready, List.length_eq_zero_iff.1 (Nat.le_zero.1 hlen)⟩
  | succ turns ih =>
    unfold advanceWhile
    split
    · next hgo =>
      have hne : w.notices.asleep ≠ [] := by simpa using hgo
      obtain ⟨hsame, hless⟩ := advance_of_sending hw
      have hlt := hless hne
      exact ih ((Wakes.advance hw).sending hw) (hsame.trans hready) (by omega)
    · next hgo => exact ⟨hready, by simpa using hgo⟩

/-- **When all notices have settled, none is under way.** -/
theorem settle_of_sending (hw : w.Sending) : w.settle.underWay = 0 := by
  obtain ⟨hwakes, hready⟩ := Wakes.turnReady hw
  obtain ⟨hready', hasleep⟩ := advanceWhile_of_sending w.turnReady.notices.turnsLeft
    (hwakes.sending hw) hready (length_le_turnsLeft _)
  unfold settle passWhile underWay
  dsimp only
  rw [hready', hasleep]
  rfl

end World

end Takeaway
