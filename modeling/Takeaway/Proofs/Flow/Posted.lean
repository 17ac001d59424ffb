import Takeaway.Proofs.Flow.Delivered

/-!
Notices where sending works and none is asleep. Main statement: a flow that sends nothing by itself
has its notices delivered in the order in which it hands them over, behind those that were under
way before.
-/

namespace Takeaway

namespace World

variable {w w' w'' : World} {es es' : List Envelope}

/-- Time does not pass for sleepers where there are none. -/
theorem advanceWhile_of_none (hw : w.notices.asleep = []) (test : World → Bool) (turns : Nat) :
    advanceWhile test turns w = w := by
  cases turns with
  | zero => rfl
  | succ turns =>
    unfold advanceWhile
    rw [hw]
    rfl

/-- Sending works, and no notice is asleep. -/
structure Brisk (w : World) : Prop extends Sending w where
  asleep : w.notices.asleep = []

namespace Brisk

theorem turnReady (hw : w.Brisk) : w.turnReady =
    World.posted { w with notices := { w.notices with ready := [] } }
      (w.notices.ready.map (·.envelope)) :=
  turns_of_sending (w := { w with notices := { w.notices with ready := [] } })
    ⟨hw.isUp, hw.failing⟩ _

/-- Time passes for the notices that are ready, and for no others. -/
theorem passWhile (hw : w.Brisk) (test : World → Bool) : w.passWhile test = w.turnReady := by
  have hasleep : w.turnReady.notices.asleep = [] := by
    rw [hw.turnReady]
    exact hw.asleep
  exact advanceWhile_of_none hasleep test _

theorem settle_broker (hw : w.Brisk) : w.settle.broker =
    w.broker.deliverAll ((w.notices.ready.map (·.envelope)).map (Delivery.mk w.topic)) := by
  unfold settle
  rw [hw.passWhile, hw.turnReady]
  rfl

end Brisk

/-! ### Messages that are handed over -/

/-- From the one world to the other these messages were handed over: they are delivered in this
order, behind those that were under way before. -/
structure Posts (es : List Envelope) (w w' : World) : Prop where
  brisk : w'.Brisk
  topic : w'.topic = w.topic
  settled : w'.settle.broker = w.settle.broker.deliverAll (es.map (Delivery.mk w.topic))

namespace Posts

protected theorem trans (h : Posts es w w') (h' : Posts es' w' w'') :
    Posts (es ++ es') w w'' where
  brisk := h'.brisk
  topic := h'.topic.trans h.topic
  settled := by
    rw [h'.settled, h.settled, h.topic, List.map_append, Broker.deliverAll_append]

theorem nil_trans (h : Posts [] w w') (h' : Posts es w' w'') : Posts es w w'' := h.trans h'

/-- Where the broker and the notices are the same, nothing is handed over. -/
theorem of_same (hw : w.Brisk) (ht : w'.topic = w.topic) (hb : w'.broker = w.broker)
    (hn : w'.notices = w.notices) : Posts [] w w' := by
  have hbrisk : w'.Brisk :=
    ⟨⟨by rw [hb]; exact hw.isUp, by rw [hb]; exact hw.failing⟩, by rw [hn]; exact hw.asleep⟩
  refine ⟨hbrisk, ht, ?_⟩
  rw [hbrisk.settle_broker, hw.settle_broker, ht, hb, hn]
  rfl

theorem turnReady (hw : w.Brisk) : Posts [] w w.turnReady := by
  have hbrisk : w.turnReady.Brisk := by
    refine ⟨(Wakes.turnReady hw.toSending).1.sending hw.toSending, ?_⟩
    rw [hw.turnReady]
    exact hw.asleep
  refine ⟨hbrisk, by rw [hw.turnReady]; rfl, ?_⟩
  rw [hbrisk.settle_broker, hw.settle_broker, hw.turnReady]
  rfl

theorem note (hw : w.Brisk) (e : Envelope) : Posts [e] w (w.perform (.note e)).2 := by
  have hbrisk : (w.perform (.note e)).2.Brisk := ⟨⟨hw.isUp, hw.failing⟩, hw.asleep⟩
  refine ⟨hbrisk, rfl, ?_⟩
  rw [hbrisk.settle_broker, hw.settle_broker, ← Broker.deliverAll_append, ← List.map_append]
  have hready : (w.perform (.note e)).2.notices.ready.map (·.envelope) =
      w.notices.ready.map (·.envelope) ++ [e] := List.map_append
  rw [hready]
  rfl

/-- While somebody waits, what is ready is delivered, and that is all. -/
theorem await (hw : w.Brisk) (rank : Rank) (wt : Wait) (limit : Option Nat) :
    Posts [] w (w.await rank wt limit).2 := by
  have hready := turnReady hw
  unfold World.await
  split
  · exact .of_same hw rfl rfl rfl
  · next tick _ _ =>
    -- nobody is asleep, so nobody goes on at the tick that is waited for
    have hpass : w.passUntil rank tick = ((w.turnReady.reach tick).wake 0).rouse := by
      unfold passUntil
      rw [hw.passWhile]
      cases rank with
      | first => rfl
      | inTurn =>
        rw [hw.asleep]
        rfl
    have hwake : ((w.turnReady.reach tick).wake 0).rouse = w.turnReady.reach tick := by
      have hasleep : (w.turnReady.reach tick).notices.asleep = [] := hready.brisk.asleep
      generalize w.turnReady.reach tick = v at hasleep
      obtain ⟨now, topic, store, stock, broker, ⟨limit, policy, ready, asleep⟩, metrics, keys⟩ := v
      cases hasleep
      simp [wake, rouse, turns]
    dsimp only
    rw [hpass, hwake]
    exact hready.trans (.of_same hready.brisk rfl rfl rfl)
  · show Posts [] w w.passForRoom
    unfold passForRoom
    split
    · exact .of_same hw rfl rfl rfl
    · rw [hw.passWhile]
      exact hready
  · exact .of_same hw rfl rfl rfl

end Posts

end World

namespace Flow

variable {α : Type} {x : Flow α} {w : World}

theorem sent_trail (rank : World.Rank) (hx : x.Each fun a => a.isSend = false) (w : World) :
    Deeds.sent (x.trail rank w) = [] := by
  have hdeeds : ∀ d ∈ x.trail rank w, d.action.isSend = false := hx.surely.does
  refine List.flatMap_eq_nil_iff.2 fun d hd => ?_
  have hd := hdeeds d hd
  obtain ⟨v, a, v'⟩ := d
  cases a <;> first | rfl | cases hd

/-- **Notices are delivered in the order in which they are handed over**, and by a flow that sends
nothing by itself no other message is said. -/
theorem posts_run (rank : World.Rank) (hx : x.Each fun a => a.isSend = false) (hw : w.Brisk) :
    World.Posts (Deeds.said (x.trail rank w)) w (x.run rank w).2 := by
  have hsaid : Deeds.said (x.trail rank w) = Deeds.noted (x.trail rank w) := by
    unfold Deeds.said
    rw [sent_trail rank hx, List.nil_append]
  rw [hsaid]
  clear hsaid
  induction x generalizing w with
  | done a => exact .of_same hw rfl rfl rfl
  | act a next ih =>
    have hone : World.Posts (Deed.mk w a (w.perform a).2).noted w (w.perform a).2 := by
      by_cases hnote : a.isNote = true
      · cases a with
        | note e => exact .note hw e
        | _ => cases hnote
      · have hnote : a.isNote = false := Bool.eq_false_iff.2 hnote
        obtain ⟨hb, hn, ht⟩ := World.perform_apart hx.1 hnote w
        have hnone : (Deed.mk w a (w.perform a).2).noted = [] := by
          cases a <;> first | rfl | cases hnote
        rw [hnone]
        exact .of_same hw ht hb hn
    exact hone.trans (ih _ (hx.2 _) hone.brisk)
  | wait wt limit next ih =>
    have hwait := World.Posts.await hw rank wt limit
    exact hwait.nil_trans (ih _ (hx _) hwait.brisk)

end Flow

end Takeaway
