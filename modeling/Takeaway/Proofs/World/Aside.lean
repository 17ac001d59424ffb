import Takeaway.World.Notices
import Mathlib.Algebra.Order.Group.Multiset
import Mathlib.Tactic.Abel

/-!
What goes on aside from orders and stock while somebody waits: notices are tried, and the clock
moves on. Main statement: a wait leaves orders and stock as they are, and as long as sending works
no message is lost or made by it.
-/

namespace Takeaway.World

variable {w w' w'' : World} {a b : Multiset Envelope}

/-! ### Messages sent or under way -/

/-- The messages of a row of notices. -/
def messages (l : List Notice) : Multiset Envelope := l.map (·.envelope)

/-- The notices under way, as messages. -/
def underWay (w : World) : Multiset Envelope :=
  messages w.notices.ready + messages (w.notices.asleep.map (·.2))

/-- All messages that were sent or are under way. -/
def traffic (w : World) : Multiset Envelope :=
  (w.broker.history.map (·.envelope) : List Envelope) + w.underWay

/-- Every attempt to send succeeds, and a record is made of it. -/
structure Flowing (w : World) : Prop where
  isUp : w.broker.isUp = true
  failing : w.broker.failing = 0
  records : w.broker.records = true

/-- What was said between two moments: the record of the broker only grows, and no message comes to
those sent or under way but the messages `a`. -/
structure Says (a : Multiset Envelope) (w w' : World) : Prop where
  history : w.broker.history <+: w'.broker.history
  bound : w'.traffic ≤ w.traffic + a

namespace Says

protected theorem trans (h : Says a w w') (h' : Says b w' w'') : Says (a + b) w w'' where
  history := h.history.trans h'.history
  bound := by
    refine h'.bound.trans ?_
    rw [← add_assoc]
    exact add_le_add_left h.bound b

theorem mono (h : Says a w w') (hab : a ≤ b) : Says b w w' :=
  ⟨h.history, h.bound.trans (add_le_add_right hab _)⟩

end Says

/-- What becomes of the mail between two moments: the messages `a` are said, the broker stays
switched as it is, and if sending works, all of them come to those sent or under way. -/
structure Mail (a : Multiset Envelope) (w w' : World) : Prop extends Says a w w' where
  isUp : w'.broker.isUp = w.broker.isUp
  records : w'.broker.records = w.broker.records
  failing : w.broker.failing = 0 → w'.broker.failing = 0
  traffic : w.Flowing → w'.traffic = w.traffic + a

namespace Mail

theorem flowing (h : Mail a w w') (hw : w.Flowing) : w'.Flowing :=
  ⟨h.isUp.trans hw.isUp, h.failing hw.failing, h.records.trans hw.records⟩

protected theorem trans (h : Mail a w w') (h' : Mail b w' w'') : Mail (a + b) w w'' where
  toSays := h.toSays.trans h'.toSays
  isUp := h'.isUp.trans h.isUp
  records := h'.records.trans h.records
  failing hw := h'.failing (h.failing hw)
  traffic hw := by rw [h'.traffic (h.flowing hw), h.traffic hw, add_assoc]

theorem zero_trans (h : Mail 0 w w') (h' : Mail b w' w'') : Mail b w w'' := by
  simpa using h.trans h'

end Mail

/-- Where the broker records the same and the same messages are sent or under way, the messages
`0` were said. -/
theorem says_of_same (hh : w'.broker.history = w.broker.history) (ht : w'.traffic = w.traffic) :
    Says 0 w w' :=
  ⟨hh ▸ List.prefix_refl _, by rw [ht, add_zero]⟩

theorem mail_of_same (hb : w'.broker = w.broker) (hn : w'.notices = w.notices) :
    Mail 0 w w' := by
  have ht : w'.traffic = w.traffic := by unfold World.traffic underWay; rw [hb, hn]
  exact ⟨says_of_same (by rw [hb]) ht, by rw [hb], by rw [hb], fun h => by rw [hb]; exact h,
    fun _ => by rw [ht, add_zero]⟩

/-- The one world becomes the other aside from orders and stock. -/
structure Aside (a : Multiset Envelope) (w w' : World) : Prop extends Mail a w w' where
  store : w'.store = w.store
  stock : w'.stock = w.stock

namespace Aside

protected theorem refl (w : World) : Aside 0 w w := ⟨mail_of_same rfl rfl, rfl, rfl⟩

protected theorem trans (h : Aside a w w') (h' : Aside b w' w'') : Aside (a + b) w w'' :=
  ⟨h.toMail.trans h'.toMail, h'.store.trans h.store, h'.stock.trans h.stock⟩

theorem trans_zero (h : Aside a w w') (h' : Aside 0 w' w'') : Aside a w w'' := by
  simpa using h.trans h'

theorem zero_trans (h : Aside 0 w w') (h' : Aside b w' w'') : Aside b w w'' := by
  simpa using h.trans h'

/-- When sending does not work, nothing is promised of messages. -/
theorem of_not_flowing (h : Aside a w w') (hw : ¬ w.Flowing) (hab : a ≤ b) : Aside b w w' :=
  { h with toSays := h.toSays.mono hab, traffic := fun hf => absurd hf hw }

end Aside

/-- A change of clock, counts and keys alone. -/
theorem aside_of_same (hs : w'.store = w.store) (hk : w'.stock = w.stock)
    (hb : w'.broker = w.broker) (hn : w'.notices = w.notices) : Aside 0 w w' :=
  ⟨mail_of_same hb hn, hs, hk⟩

theorem aside_count (w : World) (s : Series) (n : Nat) : Aside 0 w (w.count s n) :=
  aside_of_same rfl rfl rfl rfl

theorem aside_reach (w : World) (tick : Nat) : Aside 0 w (w.reach tick) :=
  aside_of_same rfl rfl rfl rfl

/-! ### Sending -/

theorem send_of_flowing (hw : w.Flowing) (e : Envelope) :
    w.send e = (.ok (), { w with broker := w.broker.deliver ⟨w.topic, e⟩ }) := by
  have hup := hw.isUp
  have hf := hw.failing
  simp [send, Broker.send, Broker.attempt, hup, hf]

/-- An attempt to send delivers the message, or changes nothing but the count of failures. -/
theorem send_cases (w : World) (e : Envelope) :
    ∃ b, b.isUp = w.broker.isUp ∧ b.records = w.broker.records ∧ b.history = w.broker.history ∧
      (w.broker.failing = 0 → b.failing = 0) ∧
      ((∃ f, w.send e = (.error f, { w with broker := b })) ∨
        w.send e = (.ok (), { w with broker := b.deliver ⟨w.topic, e⟩ })) := by
  have ha : w.broker.attempt.2.isUp = w.broker.isUp ∧
      w.broker.attempt.2.records = w.broker.records ∧
      w.broker.attempt.2.history = w.broker.history ∧
      (w.broker.failing = 0 → w.broker.attempt.2.failing = 0) := by
    unfold Broker.attempt
    split
    · exact ⟨rfl, rfl, rfl, id⟩
    · split
      · next hn => exact ⟨rfl, rfl, rfl, fun h => by omega⟩
      · exact ⟨rfl, rfl, rfl, id⟩
  rcases hat : w.broker.attempt with ⟨f | ⟨⟩, b⟩
  all_goals
    rw [hat] at ha
    obtain ⟨h₁, h₂, h₃, h₄⟩ := ha
    refine ⟨b, h₁, h₂, h₃, h₄, ?_⟩
  · exact .inl ⟨f, by simp only [send, Broker.send, hat]⟩
  · exact .inr (by simp only [send, Broker.send, hat])

/-- An attempt that fails says nothing. -/
theorem aside_send_error {e : Envelope} {f : MessageFailure} {w₁ : World}
    (h : w.send e = (.error f, w₁)) : ¬ w.Flowing ∧ Aside 0 w w₁ := by
  have hnot : ¬ w.Flowing := fun hw => by
    rw [send_of_flowing hw] at h
    cases h
  obtain ⟨b, h₁, h₂, h₃, h₄, ⟨g, heq⟩ | heq⟩ := w.send_cases e <;> rw [heq] at h <;> cases h
  have ht : traffic { w with broker := b } = w.traffic := by
    unfold World.traffic underWay
    rw [h₃]
  exact ⟨hnot, ⟨says_of_same h₃ ht, h₁, h₂, h₄, fun hf => absurd hf hnot⟩, rfl, rfl⟩

theorem aside_send (w : World) (e : Envelope) : Aside {e} w (w.send e).2 := by
  obtain ⟨b, h₁, h₂, h₃, h₄, ⟨g, heq⟩ | heq⟩ := w.send_cases e
  · obtain ⟨hnot, h⟩ := aside_send_error heq
    rw [heq]
    exact h.of_not_flowing hnot (Multiset.zero_le _)
  · rw [heq]
    have hrecords : w.broker.records = true →
        traffic { w with broker := b.deliver ⟨w.topic, e⟩ } = w.traffic + {e} := fun hr => by
      simp only [World.traffic, underWay, Broker.deliver, h₂, h₃, hr, if_true, List.map_append,
        List.map_cons, List.map_nil, ← Multiset.coe_add, Multiset.coe_singleton]
      abel
    refine ⟨⟨⟨?_, ?_⟩, h₁, h₂, h₄, fun hw => hrecords hw.records⟩, rfl, rfl⟩
    · show w.broker.history <+: (b.deliver ⟨w.topic, e⟩).history
      unfold Broker.deliver
      dsimp only
      split
      · rw [h₃]
        exact List.prefix_append _ _
      · exact h₃ ▸ List.prefix_refl _
    · by_cases hr : w.broker.records = true
      · exact (hrecords hr).le
      · -- a message of which no record is made is nowhere
        have hsame : traffic { w with broker := b.deliver ⟨w.topic, e⟩ } = w.traffic := by
          rw [Bool.not_eq_true] at hr
          simp only [World.traffic, underWay, Broker.deliver, h₂, h₃, hr, Bool.false_eq_true,
            if_false]
        rw [hsame]
        exact Multiset.le_add_right _ _

/-! ### Turns of notices -/

/-- A turn is the last one of its notice, or it failed and the notice goes to sleep. -/
theorem turn_cases (w : World) (e : Envelope) (left : Nat) :
    (∃ w', w.turn e left = (w', none) ∧ Aside {e} w w') ∨
      ∃ w' s, w.turn e left = (w', some s) ∧ s.2.envelope = e ∧ ¬ w.Flowing ∧ Aside 0 w w' := by
  induction left generalizing w with
  | zero =>
    have hsend := aside_send w e
    rcases heq : w.send e with ⟨f | ⟨⟩, w₁⟩ <;> rw [heq] at hsend <;> simp only [turn, heq]
    · obtain ⟨hnot, h⟩ := aside_send_error heq
      exact .inl ⟨_, rfl, (h.trans_zero (aside_count w₁ _ _)).of_not_flowing hnot
        (Multiset.zero_le _)⟩
    · exact .inl ⟨_, rfl, hsend⟩
  | succ left ih =>
    have hsend := aside_send w e
    rcases heq : w.send e with ⟨f | ⟨⟩, w₁⟩ <;> rw [heq] at hsend <;> simp only [turn, heq]
    · obtain ⟨hnot, h⟩ := aside_send_error heq
      have hc := h.trans_zero (aside_count w₁ .sendRetries 1)
      split
      · split
        · rcases ih (w₁.count .sendRetries 1) with ⟨w₂, h₂, ha⟩ | ⟨w₂, s, h₂, hs, -, ha⟩
          · exact .inl ⟨w₂, h₂, hc.zero_trans ha⟩
          · exact .inr ⟨w₂, s, h₂, hs, hnot, hc.trans_zero ha⟩
        · exact .inr ⟨_, _, rfl, rfl, hnot, hc⟩
      · exact .inl ⟨_, rfl, (h.trans_zero (aside_count w₁ _ _)).of_not_flowing hnot
          (Multiset.zero_le _)⟩
    · exact .inl ⟨_, rfl, hsend⟩

theorem messages_cons (n : Notice) (l : List Notice) :
    messages (n :: l) = {n.envelope} + messages l := rfl

theorem messages_append (l₁ l₂ : List Notice) :
    messages (l₁ ++ l₂) = messages l₁ + messages l₂ := by
  simp [messages]

theorem messages_bedded (s : Nat × Notice) (l : List (Nat × Notice)) :
    messages ((bedded s l).map (·.2)) = {s.2.envelope} + messages (l.map (·.2)) := by
  induction l with
  | nil => rfl
  | cons t r ih =>
    unfold bedded
    split
    · rfl
    · rw [List.map_cons, messages_cons, ih, List.map_cons, messages_cons]
      abel

theorem aside_turns (l : List Notice) (w : World) : Aside (messages l) w (w.turns l) := by
  induction l generalizing w with
  | nil => exact Aside.refl w
  | cons n r ih =>
    unfold turns
    rcases turn_cases w n.envelope n.left with ⟨w₁, heq, h⟩ | ⟨w₁, s, heq, hs, hnot, h⟩
    · rw [heq]
      exact h.trans (ih w₁)
    · rw [heq]
      have htraffic : traffic { w₁ with notices :=
          { w₁.notices with asleep := bedded s w₁.notices.asleep } } =
          w₁.traffic + {n.envelope} := by
        simp only [World.traffic, underWay, messages_bedded, hs]
        abel
      have hbound := h.bound
      rw [add_zero] at hbound
      have hb : Aside {n.envelope} w { w₁ with notices :=
          { w₁.notices with asleep := bedded s w₁.notices.asleep } } :=
        ⟨⟨⟨h.history, by rw [htraffic]; exact add_le_add_left hbound _⟩, h.isUp, h.records,
          h.failing, fun hw => absurd hw hnot⟩, h.store, h.stock⟩
      exact hb.trans (ih _)

/-- Turns of notices that were taken from those under way. -/
theorem aside_turns_of_taken {l : List Notice} {w₀ : World} (hs : w₀.store = w.store)
    (hk : w₀.stock = w.stock) (hb : w₀.broker = w.broker)
    (ht : w₀.traffic + messages l = w.traffic) : Aside 0 w (w₀.turns l) := by
  have h := aside_turns l w₀
  have hbound := h.bound
  rw [ht] at hbound
  refine ⟨⟨⟨?_, ?_⟩, ?_, ?_, ?_, fun hw => ?_⟩, h.store.trans hs, h.stock.trans hk⟩
  · rw [← hb]
    exact h.history
  · rw [add_zero]
    exact hbound
  · exact h.isUp.trans (by rw [hb])
  · exact h.records.trans (by rw [hb])
  · exact fun hf => h.failing (by rw [hb]; exact hf)
  · have hf : w₀.Flowing := ⟨by rw [hb]; exact hw.isUp, by rw [hb]; exact hw.failing,
      by rw [hb]; exact hw.records⟩
    rw [h.traffic hf, ht, add_zero]

theorem aside_turnReady (w : World) : Aside 0 w w.turnReady := by
  refine aside_turns_of_taken rfl rfl rfl ?_
  simp only [World.traffic, underWay, messages, List.map_nil, Multiset.coe_nil]
  abel

theorem aside_wake (w : World) (n : Nat) : Aside 0 w (w.wake n) := by
  refine aside_turns_of_taken rfl rfl rfl ?_
  have hsplit : messages (w.notices.asleep.map (·.2)) =
      messages ((w.notices.asleep.take n).map (·.2)) +
        messages ((w.notices.asleep.drop n).map (·.2)) := by
    rw [← messages_append, ← List.map_append, List.take_append_drop]
  simp only [World.traffic, underWay, hsplit]
  abel

/-! ### Time -/

theorem aside_advance (w : World) : Aside 0 w w.advance := by
  unfold advance
  split
  · exact Aside.refl w
  · exact (aside_reach w _).trans_zero (aside_wake _ _)

theorem aside_advanceWhile (test : World → Bool) (turns : Nat) (w : World) :
    Aside 0 w (advanceWhile test turns w) := by
  induction turns generalizing w with
  | zero => exact Aside.refl w
  | succ turns ih =>
    unfold advanceWhile
    split
    · exact (aside_advance w).trans_zero (ih _)
    · exact Aside.refl w

theorem aside_passWhile (w : World) (test : World → Bool) : Aside 0 w (w.passWhile test) :=
  (aside_turnReady w).trans_zero (aside_advanceWhile _ _ _)

theorem aside_rouse (w : World) : Aside 0 w w.rouse := by
  have ht : w.rouse.traffic = w.traffic := by
    have hsplit : messages (w.notices.asleep.map (·.2)) =
        messages ((w.notices.asleep.take (w.dueBy w.now)).map (·.2)) +
          messages ((w.notices.asleep.drop (w.dueBy w.now)).map (·.2)) := by
      rw [← messages_append, ← List.map_append, List.take_append_drop]
    simp only [World.traffic, underWay, rouse, messages_append, hsplit]
    abel
  exact ⟨⟨says_of_same rfl ht, rfl, rfl, id, fun _ => by rw [ht, add_zero]⟩, rfl, rfl⟩

theorem aside_passUntil (w : World) (rank : Rank) (tick : Nat) :
    Aside 0 w (w.passUntil rank tick) := by
  unfold passUntil
  exact (((aside_passWhile w _).trans_zero (aside_reach _ _)).trans_zero
    (aside_wake _ _)).trans_zero (aside_rouse _)

theorem aside_passForRoom (w : World) : Aside 0 w w.passForRoom := by
  unfold passForRoom
  split
  · exact Aside.refl w
  · exact aside_passWhile w _

/-- A wait leaves orders and stock as they are; if sending works, no message is lost or made. -/
theorem aside_await (w : World) (rank : Rank) (wait : Wait) (limit : Option Nat) :
    Aside 0 w (w.await rank wait limit).2 := by
  unfold await
  split
  · exact Aside.refl w
  · exact aside_passUntil w rank _
  · exact aside_passForRoom w
  · exact Aside.refl w

/-! ### What was sent -/

/-- The messages that the broker recorded from one world to a later one. -/
def sentUntil (w w' : World) : Multiset Envelope :=
  ((w'.broker.history.drop w.broker.history.length).map (·.envelope) : List Envelope)

theorem traffic_of_grown (h : w.broker.history <+: w'.broker.history) :
    w'.traffic = ((w.broker.history.map (·.envelope) : List Envelope) : Multiset Envelope) +
      (w.sentUntil w' + w'.underWay) := by
  obtain ⟨t, ht⟩ := h
  unfold traffic sentUntil
  rw [← ht, List.drop_left, List.map_append, ← Multiset.coe_add, add_assoc]

/-- What was sent or is under way was under way before, or was said meanwhile. -/
theorem Says.sent_le (h : Says a w w') : w.sentUntil w' + w'.underWay ≤ w.underWay + a := by
  have hbound := h.bound
  rw [traffic_of_grown h.history] at hbound
  unfold traffic at hbound
  rw [add_assoc] at hbound
  exact le_of_add_le_add_left hbound

theorem Mail.sent_eq (h : Mail a w w') (hw : w.Flowing) :
    w.sentUntil w' + w'.underWay = w.underWay + a := by
  have htraffic := h.traffic hw
  rw [traffic_of_grown h.history] at htraffic
  unfold World.traffic at htraffic
  rw [add_assoc] at htraffic
  exact add_left_cancel htraffic

end Takeaway.World
