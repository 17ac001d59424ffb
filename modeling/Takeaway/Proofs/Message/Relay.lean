import Takeaway.Proofs.Message.Intake

/-!
An intake at work, while others send to the broker and somebody takes what was read out of the
inbox, each as fast as it likes. Main statement: what comes into the inbox was sent on the topic
and comes in the order of sending, each message once; and whatever was sent is in the inbox, held,
passed over, still to be read, or counted as lost.
-/

namespace Takeaway

/-- An intake with the broker that it reads, and what became of the messages. -/
structure Relay where
  broker : Broker
  intake : Intake
  metrics : Metrics := {}
  /-- What was sent since the intake began. -/
  sent : List Delivery := []
  /-- What was taken out of the inbox. -/
  taken : List Envelope := []
  /-- What was read and passed over. -/
  skipped : List Delivery := []

namespace Relay

/-- What can happen next. -/
inductive Move where
  /-- Somebody tries to send. -/
  | send (topic : String) (e : Envelope)
  /-- Reading goes on by one step. -/
  | step
  /-- The first message is taken out of the inbox. -/
  | take
  /-- From now on, so many attempts to send fail, or all of them. -/
  | trouble (failing : Nat) (isUp : Bool)

/-- The message that the next step passes over, if it does. -/
def passed (r : Relay) : List Delivery :=
  match r.intake.held, (r.broker.read r.intake.reader).1 with
  | none, .message d => if d.topic = r.intake.topic then [] else [d]
  | _, _ => []

/-- The relay after something happened. -/
def move (r : Relay) : Move → Relay
  | .send topic e =>
    match r.broker.send topic e with
    | (.ok (), b) => { r with broker := b, sent := r.sent ++ [⟨topic, e⟩] }
    | (.error _, b) => { r with broker := b }
  | .step =>
    let (i, m) := r.intake.step r.broker r.metrics
    { r with intake := i, metrics := m, skipped := r.skipped ++ r.passed }
  | .take =>
    match r.intake.inbox with
    | [] => r
    | e :: rest => { r with intake := { r.intake with inbox := rest }, taken := r.taken ++ [e] }
  | .trouble failing isUp => { r with broker := { r.broker with failing := failing, isUp := isUp } }

/-- The relay after all that happened. -/
def after (r : Relay) (moves : List Move) : Relay := moves.foldl move r

/-- An intake that begins when some messages were sent already. -/
def start (capacity : Nat) (records : Bool) (early : List Delivery) (topic : String)
    (size : Nat) : Relay :=
  let b := Broker.deliverAll { Broker.withCapacity capacity with records := records } early
  { broker := b, intake := .start b topic size }

/-- What came into the inbox so far. -/
def forwarded (r : Relay) : List Envelope := r.taken ++ r.intake.inbox

/-- The number of messages that were counted as lost. -/
def lost (r : Relay) : Nat := r.metrics.value .messagesLost

/-- The number of messages that the reader has before it. -/
def unread (r : Relay) : Nat := r.broker.total - r.intake.reader.position

/-- Everything was read, and nothing is held. -/
def IsCaughtUp (r : Relay) : Prop := r.unread = 0 ∧ r.intake.held = none

/-- The messages on a topic. -/
def onTopic (topic : String) (l : List Delivery) : List Envelope :=
  (l.filter fun d => d.topic = topic).map (·.envelope)

/-- The messages on other topics. -/
def offTopic (topic : String) (l : List Delivery) : List Delivery :=
  l.filter fun d => d.topic ≠ topic

variable {r : Relay} {topic : String} {capacity : Nat} {early behind ahead l l' : List Delivery}
  {d : Delivery}

theorem onTopic_append :
    onTopic topic (l ++ l') = onTopic topic l ++ onTopic topic l' := by
  simp only [onTopic, List.filter_append, List.map_append]

theorem offTopic_append :
    offTopic topic (l ++ l') = offTopic topic l ++ offTopic topic l' := List.filter_append ..

theorem length_topics (topic : String) (l : List Delivery) :
    (onTopic topic l).length + (offTopic topic l).length = l.length := by
  unfold onTopic offTopic
  rw [List.length_map, ← List.countP_eq_length_filter, ← List.countP_eq_length_filter,
    l.length_eq_countP_add_countP fun d => d.topic = topic]
  simp only [ne_eq, decide_eq_true_eq]

@[simp] theorem onTopic_self (e : Envelope) : onTopic topic [⟨topic, e⟩] = [e] := by
  simp [onTopic]

@[simp] theorem offTopic_of_ne (h : d.topic ≠ topic) : offTopic topic [d] = [d] := by
  simp [offTopic, h]

/-! ### Where a relay stands -/

/-- A relay with the messages `behind` behind it and `ahead` before it: those behind were put into
the inbox, are held, were passed over, or were lost. -/
structure Stands (capacity : Nat) (topic : String) (early : List Delivery) (r : Relay)
    (behind ahead : List Delivery) : Prop where
  capacity_eq : r.broker.capacity = capacity
  topic_eq : r.intake.topic = topic
  keeps : r.broker.Keeps ((early ++ behind) ++ ahead)
  reader : r.intake.reader = ⟨(early ++ behind).length⟩
  sent : r.sent = behind ++ ahead
  inOrder : (r.forwarded ++ r.intake.held.toList).Sublist (onTopic topic behind)
  skipped : r.skipped.Sublist (offTopic topic behind)
  balance : behind.length =
    (r.forwarded ++ r.intake.held.toList).length + r.skipped.length + r.lost

theorem stands_start (capacity : Nat) (records : Bool) (early : List Delivery) (topic : String)
    (size : Nat) :
    (start capacity records early topic size).Stands (Broker.roundedUp capacity) topic early
      [] [] := by
  have hfresh : ({ Broker.withCapacity capacity with records := records } : Broker).Keeps [] :=
    (Broker.keeps_withCapacity capacity).of_same rfl rfl rfl
  have hkeeps := hfresh.deliverAll early
  rw [List.nil_append] at hkeeps
  refine ⟨Broker.capacity_deliverAll _ early, rfl, ?_, ?_, rfl, List.Sublist.refl _,
    List.Sublist.refl _, rfl⟩
  · rw [List.append_nil, List.append_nil]
    exact hkeeps
  · rw [List.append_nil, ← hkeeps.total]
    rfl

namespace Stands

variable (h : r.Stands capacity topic early behind ahead)
include h

theorem unread : r.unread = ahead.length := by
  unfold Relay.unread
  rw [h.keeps.total, h.reader, @List.length_append _ _ ahead, Nat.add_sub_cancel_left]

/-- One more message was sent, or none was. -/
theorem send (channel : String) (e : Envelope) :
    (r.move (.send channel e)).Stands capacity topic early behind (ahead ++ [⟨channel, e⟩]) ∨
      (r.move (.send channel e)).Stands capacity topic early behind ahead := by
  rcases r.broker.send_cases channel e with hsend | ⟨f, n, hsend⟩
  · left
    simp only [move, hsend]
    have hkeeps := h.keeps.deliver ⟨channel, e⟩
    rw [List.append_assoc] at hkeeps
    refine { h with keeps := hkeeps, sent := ?_ }
    rw [h.sent, List.append_assoc]
  · right
    simp only [move, hsend]
    exact { h with keeps := h.keeps.of_same rfl rfl rfl }

/-- Taking a message out of the inbox leaves what came into it. -/
theorem take : (r.move .take).Stands capacity topic early behind ahead := by
  have hinbox := h.inOrder
  have hbalance := h.balance
  unfold forwarded at hinbox hbalance
  cases hi : r.intake.inbox with
  | nil =>
    simp only [move, hi]
    exact h
  | cons e rest =>
    simp only [move, hi]
    rw [hi, List.append_cons] at hinbox hbalance
    exact { h with inOrder := hinbox, balance := hbalance }

/-- A message that is held goes into the inbox or stays where it is. -/
theorem step_held {e : Envelope} (he : r.intake.held = some e) :
    (r.move .step).Stands capacity topic early behind ahead ∧ (r.move .step).lost = r.lost := by
  have hpassed : r.skipped ++ r.passed = r.skipped := by
    simp only [passed, he, List.append_nil]
  simp only [move, Intake.step, he, hpassed]
  split
  · exact ⟨h, rfl⟩
  · have hinbox := h.inOrder
    have hbalance := h.balance
    simp only [forwarded, he, Option.toList_some, List.append_assoc] at hinbox hbalance
    refine ⟨{ h with inOrder := ?_, balance := ?_ }, rfl⟩
    · simpa only [forwarded, Option.toList_none, List.append_nil] using hinbox
    · simpa only [forwarded, lost, Option.toList_none, List.append_nil] using hbalance

/-- When nothing is held, the inbox has got all that was read on the topic. -/
theorem unheld (hheld : r.intake.held = none) :
    r.forwarded.Sublist (onTopic topic behind) ∧
      behind.length = r.forwarded.length + r.skipped.length + r.lost := by
  have hinbox := h.inOrder
  have hbalance := h.balance
  rw [hheld, Option.toList_none, List.append_nil] at hinbox hbalance
  exact ⟨hinbox, hbalance⟩

/-- Where the reader stands when it has left some more messages behind it. -/
theorem advance (hahead : ahead = l ++ l') :
    r.broker.Keeps ((early ++ (behind ++ l)) ++ l') ∧
      (⟨(early ++ behind).length + l.length⟩ : Broker.Reader) =
        ⟨(early ++ (behind ++ l)).length⟩ ∧
      r.sent = (behind ++ l) ++ l' := by
  refine ⟨?_, ?_, ?_⟩
  · rw [← List.append_assoc, List.append_assoc _ l, ← hahead]
    exact h.keeps
  · rw [← List.append_assoc, @List.length_append _ _ l]
  · rw [h.sent, hahead, List.append_assoc]

/-- The next message is read: it is held if it is on the topic, and otherwise passed over. -/
theorem step_message (hheld : r.intake.held = none) (hahead : ahead = d :: l)
    (hread : r.broker.read ⟨(early ++ behind).length⟩ =
      (.message d, ⟨(early ++ behind).length + 1⟩)) :
    (r.move .step).Stands capacity topic early (behind ++ [d]) l ∧
      (r.move .step).lost = r.lost := by
  obtain ⟨hkeeps, hreader, hsent⟩ := h.advance (l := [d]) hahead
  obtain ⟨hinbox, hbalance⟩ := h.unheld hheld
  obtain rfl := h.topic_eq
  simp only [move, Intake.step, Intake.readOnce, passed, Subscription.react, hheld, h.reader, hread]
  obtain ⟨channel, e⟩ := d
  by_cases htopic : channel = r.intake.topic
  · subst htopic
    simp only [if_true]
    refine ⟨⟨h.capacity_eq, rfl, hkeeps, hreader, hsent, ?_, ?_, ?_⟩, rfl⟩
    · rw [onTopic_append, onTopic_self]
      exact hinbox.append (List.Sublist.refl _)
    · rw [offTopic_append, List.append_nil]
      exact h.skipped.trans (List.sublist_append_left ..)
    · simp only [forwarded, lost, Option.toList_some, List.length_append, List.length_singleton,
        List.append_nil] at hbalance ⊢
      omega
  · simp only [htopic, if_false]
    refine ⟨⟨h.capacity_eq, rfl, hkeeps, hreader, hsent, ?_, ?_, ?_⟩, rfl⟩
    · rw [onTopic_append, Option.toList_none, List.append_nil]
      exact hinbox.trans (List.sublist_append_left ..)
    · rw [offTopic_append, offTopic_of_ne htopic]
      exact h.skipped.append (List.Sublist.refl _)
    · simp only [forwarded, lost, Option.toList_none, List.length_append, List.length_singleton,
        List.append_nil] at hbalance ⊢
      omega

/-- The reader is told how many messages it missed, and that many are counted as lost. -/
theorem step_lagged (hheld : r.intake.held = none) (hahead : ahead = l ++ l')
    (hread : r.broker.read ⟨(early ++ behind).length⟩ =
      (.failed (.lagged l.length), ⟨(early ++ behind).length + l.length⟩)) :
    (r.move .step).Stands capacity topic early (behind ++ l) l' := by
  obtain ⟨hkeeps, hreader, hsent⟩ := h.advance hahead
  obtain ⟨hinbox, hbalance⟩ := h.unheld hheld
  simp only [move, Intake.step, Intake.readOnce, passed, Subscription.react, hheld, h.reader, hread]
  refine ⟨h.capacity_eq, h.topic_eq, hkeeps, hreader, hsent, ?_, ?_, ?_⟩
  · rw [onTopic_append, Option.toList_none, List.append_nil]
    exact hinbox.trans (List.sublist_append_left ..)
  · rw [offTopic_append, List.append_nil]
    exact h.skipped.trans (List.sublist_append_left ..)
  · simp only [forwarded, lost, Option.toList_none, List.append_nil, List.length_append,
      Metrics.value_count, if_true] at hbalance ⊢
    omega

/-- There is nothing to read. -/
theorem step_nothing (hheld : r.intake.held = none)
    (hread : r.broker.read ⟨(early ++ behind).length⟩ =
      (if r.broker.isClosed then .failed .closed else .nothing, ⟨(early ++ behind).length⟩)) :
    (r.move .step).Stands capacity topic early behind ahead ∧ (r.move .step).lost = r.lost := by
  have hmove : r.move .step = r := by
    obtain ⟨b, i, m, sent, taken, skipped⟩ := r
    obtain ⟨t, size, reader, inbox, held⟩ := i
    obtain rfl : held = none := hheld
    obtain rfl : reader = _ := h.reader
    cases hclosed : b.isClosed <;>
      simp only [hclosed, Bool.false_eq_true, if_true, if_false] at hread <;>
      simp only [move, Intake.step, Intake.readOnce, passed, Subscription.react, hread,
        List.append_nil]
  rw [hmove]
  exact ⟨h, rfl⟩

/-- **One move** keeps count of all messages, and none is lost unless the reader has more before it
than the broker keeps. -/
theorem move (m : Move) :
    ∃ behind' ahead', (r.move m).Stands capacity topic early behind' ahead' ∧
      (r.unread ≤ capacity → (r.move m).lost = r.lost) := by
  cases m with
  | send channel e =>
    have hlost : (r.move (.send channel e)).lost = r.lost := by
      simp only [Relay.move]
      split <;> rfl
    rcases h.send channel e with h' | h'
    · exact ⟨_, _, h', fun _ => hlost⟩
    · exact ⟨_, _, h', fun _ => hlost⟩
  | take =>
    refine ⟨_, _, h.take, fun _ => ?_⟩
    simp only [Relay.move]
    split <;> rfl
  | trouble failing isUp =>
    exact ⟨_, _, { h with keeps := h.keeps.of_same rfl rfl rfl }, fun _ => rfl⟩
  | step =>
    cases hheld : r.intake.held with
    | some e =>
      obtain ⟨h', hlost⟩ := h.step_held hheld
      exact ⟨_, _, h', fun _ => hlost⟩
    | none =>
      rcases h.keeps.read_cases with ⟨-, hread⟩ | ⟨d, rest, hahead, hread⟩ |
        ⟨missed, hmissed, hahead, hkept, hread⟩
      · obtain ⟨h', hlost⟩ := h.step_nothing hheld hread
        exact ⟨_, _, h', fun _ => hlost⟩
      · obtain ⟨h', hlost⟩ := h.step_message hheld hahead hread
        exact ⟨_, _, h', fun _ => hlost⟩
      · refine ⟨_, _, h.step_lagged hheld hahead hread, fun hunread => ?_⟩
        have hpos := List.length_pos_iff.2 hmissed
        rw [h.unread, hahead, List.length_append, hkept, h.capacity_eq] at hunread
        omega

/-- **A whole run** keeps count of all messages. -/
theorem after (moves : List Move) :
    ∃ behind' ahead', (r.after moves).Stands capacity topic early behind' ahead' := by
  induction moves generalizing r behind ahead with
  | nil => exact ⟨_, _, h⟩
  | cons m moves ih =>
    obtain ⟨_, _, h', -⟩ := h.move m
    exact ih h'

/-- None is lost in a run in which the reader never has more before it than the broker keeps. -/
theorem lost_after {moves : List Move}
    (hunread : ∀ n ≤ moves.length, (r.after (moves.take n)).unread ≤ capacity) :
    (r.after moves).lost = r.lost := by
  induction moves generalizing r behind ahead with
  | nil => rfl
  | cons m moves ih =>
    obtain ⟨_, _, h', hlost⟩ := h.move m
    have hrest := ih h' fun n hn => hunread (n + 1) (Nat.succ_le_succ hn)
    exact hrest.trans (hlost (hunread 0 (Nat.zero_le _)))

/-- When none was lost, all that were behind on the topic came through. -/
theorem complete (hlost : r.lost = 0) :
    r.forwarded ++ r.intake.held.toList = onTopic topic behind := by
  have hlength := length_topics topic behind
  have hforwarded := h.inOrder.length_le
  have hskipped := h.skipped.length_le
  have hbalance := h.balance
  exact h.inOrder.eq_of_length (by omega)

end Stands

/-! ### What the other parts of the model see of it -/

theorem records_move (h : r.broker.Records (early ++ r.sent)) (m : Move) :
    (r.move m).broker.Records (early ++ (r.move m).sent) := by
  cases m with
  | send channel e =>
    rcases r.broker.send_cases channel e with hsend | ⟨f, n, hsend⟩
    · simp only [move, hsend]
      rw [← List.append_assoc]
      exact h.deliver ⟨channel, e⟩
    · simp only [move, hsend]
      exact ⟨h.records, h.history⟩
  | step => exact h
  | take =>
    simp only [move]
    split <;> exact h
  | trouble failing isUp => exact ⟨h.records, h.history⟩

theorem records_after (h : r.broker.Records (early ++ r.sent)) (moves : List Move) :
    (r.after moves).broker.Records (early ++ (r.after moves).sent) := by
  induction moves generalizing r with
  | nil => exact h
  | cons m moves ih => exact ih (records_move h m)

/-- What was sent is what a broker that makes a record has in it. -/
theorem history_after (capacity : Nat) (early : List Delivery) (topic : String) (size : Nat)
    (moves : List Move) :
    let r := (start capacity true early topic size).after moves
    r.broker.history = early ++ r.sent := by
  have hfresh : ({ Broker.withCapacity capacity with records := true } : Broker).Records [] :=
    ⟨rfl, rfl⟩
  have hfirst : (start capacity true early topic size).broker.Records (early ++ []) := by
    rw [List.append_nil]
    exact hfresh.deliverAll early
  exact (records_after hfirst moves).history

/-- Reading for some steps is a run of as many steps at most. -/
theorem exists_after_eq_read (n : Nat) (r : Relay) : ∃ k ≤ n,
    let r' := r.after (List.replicate k .step)
    r'.broker = r.broker ∧ (r'.intake, r'.metrics) = Intake.read r.broker n r.intake r.metrics := by
  induction n generalizing r with
  | zero => exact ⟨0, Nat.le_refl 0, rfl, rfl⟩
  | succ n ih =>
    unfold Intake.read
    split
    · obtain ⟨k, hk, hbroker, hread⟩ := ih (r.move .step)
      exact ⟨k + 1, Nat.succ_le_succ hk, hbroker, hread⟩
    · exact ⟨0, Nat.zero_le _, rfl, rfl⟩

/-! ### Catching up -/

theorem inbox_move (h : r.intake.inbox.length ≤ max r.intake.size 1) (m : Move) :
    (r.move m).intake.inbox.length ≤ max (r.move m).intake.size 1 := by
  cases m with
  | send channel e =>
    simp only [move]
    split <;> exact h
  | step => exact Intake.inbox_step r.metrics h
  | take =>
    simp only [move]
    split
    · exact h
    · next e rest hinbox =>
      rw [hinbox, List.length_cons] at h
      exact Nat.le_of_succ_le h
  | trouble failing isUp => exact h

/-- The inbox never holds more than its size. -/
theorem inbox_after (h : r.intake.inbox.length ≤ max r.intake.size 1) (moves : List Move) :
    (r.after moves).intake.inbox.length ≤ max (r.after moves).intake.size 1 := by
  induction moves generalizing r with
  | nil => exact h
  | cons m moves ih => exact ih (inbox_move h m)

/-- When a message was taken out of the inbox, there is room. -/
theorem isFull_take (h : r.intake.inbox.length ≤ max r.intake.size 1) :
    (r.move .take).intake.isFull = false := by
  refine decide_eq_false ?_
  cases hinbox : r.intake.inbox with
  | nil =>
    simp only [move, hinbox, List.length_nil]
    omega
  | cons e rest =>
    simp only [move, hinbox]
    rw [hinbox, List.length_cons] at h
    omega

theorem broker_take : (r.move .take).broker = r.broker := by
  simp only [move]
  split <;> rfl

theorem intake_step : (r.move .step).intake = (r.intake.step r.broker r.metrics).1 := rfl

theorem stepsLeft_take (b : Broker) :
    Intake.stepsLeft b (r.move .take).intake = Intake.stepsLeft b r.intake := by
  simp only [move]
  split <;> rfl

/-- When there is room in the inbox, reading stops only because everything was read. -/
theorem isCaughtUp_of_canRead (hroom : r.intake.isFull = false)
    (hread : r.intake.canRead r.broker = false) : r.IsCaughtUp := by
  unfold Intake.canRead at hread
  cases hheld : r.intake.held with
  | some e =>
    rw [hheld, hroom] at hread
    cases hread
  | none =>
    rw [hheld] at hread
    exact ⟨Nat.sub_eq_zero_of_le (Nat.le_of_not_lt (of_decide_eq_false hread)), hheld⟩

/-- Steps and takings by turns come to the end. -/
theorem exists_isCaughtUp (hb : r.broker.kept.length ≤ r.broker.total)
    (hinbox : r.intake.inbox.length ≤ max r.intake.size 1) :
    ∃ more : List Move, (∀ m ∈ more, m = .step ∨ m = .take) ∧ (r.after more).IsCaughtUp := by
  induction hn : Intake.stepsLeft r.broker r.intake using Nat.strong_induction_on
    generalizing r with
  | _ n ih =>
  have hroom := isFull_take hinbox
  by_cases hread : (r.move .take).intake.canRead r.broker = true
  · -- there is room for what is held now, so the next step brings the end nearer
    have hless : Intake.stepsLeft r.broker ((r.move .take).move .step).intake < n := by
      have hstep := Intake.stepsLeft_step hb (r.move .take).metrics hread
      rw [stepsLeft_take, hn] at hstep
      rw [intake_step, broker_take]
      exact hstep
    have hbroker : ((r.move .take).move .step).broker = r.broker := broker_take
    obtain ⟨more, hmore, hcaught⟩ :=
      ih _ hless (by rw [hbroker]; exact hb) (inbox_move (inbox_move hinbox .take) .step)
        (by rw [hbroker])
    refine ⟨.take :: .step :: more, ?_, hcaught⟩
    intro m hm
    rcases List.mem_cons.1 hm with rfl | hm
    · exact .inr rfl
    · rcases List.mem_cons.1 hm with rfl | hm
      · exact .inl rfl
      · exact hmore m hm
  · refine ⟨[.take], ?_, ?_⟩
    · intro m hm
      exact .inr (List.mem_singleton.1 hm)
    · have hend : (r.move .take).intake.canRead (r.move .take).broker = false := by
        rw [broker_take]
        exact Bool.eq_false_iff.2 hread
      exact isCaughtUp_of_canRead hroom hend

/-- **After every run the intake can catch up**, if somebody takes what comes into the inbox. -/
theorem exists_isCaughtUp_after (capacity : Nat) (records : Bool) (early : List Delivery)
    (topic : String) (size : Nat) (moves : List Move) :
    ∃ more : List Move, (∀ m ∈ more, m = .step ∨ m = .take) ∧
      ((start capacity records early topic size).after (moves ++ more)).IsCaughtUp := by
  obtain ⟨_, _, h⟩ := (stands_start capacity records early topic size).after moves
  have hinbox := inbox_after (r := start capacity records early topic size) (Nat.zero_le _) moves
  obtain ⟨more, hmore, hcaught⟩ := exists_isCaughtUp h.keeps.length_kept hinbox
  refine ⟨more, hmore, ?_⟩
  unfold after at hcaught ⊢
  rw [List.foldl_append]
  exact hcaught

/-! ### Runs -/

/-- **Nothing is lost silently.** Whatever happens in which order: what comes into the inbox was
sent on the topic, in this order and each message once; what is passed over was sent on other
topics; and everything that was sent is in one of these, is held, is still before the reader, or is
counted as lost. Nothing is lost as long as the reader never has more before it than the broker
keeps, and then all that was sent on the topic comes through. -/
theorem nothing_lost_silently (capacity : Nat) (records : Bool) (early : List Delivery)
    (topic : String) (size : Nat) (moves : List Move) :
    let first := start capacity records early topic size
    let r := first.after moves
    r.forwarded.Sublist (onTopic topic r.sent) ∧ r.skipped.Sublist (offTopic topic r.sent) ∧
      r.sent.length = r.forwarded.length + r.intake.held.toList.length + r.skipped.length +
        r.lost + r.unread ∧
      (r.IsCaughtUp → r.sent.length = r.forwarded.length + r.skipped.length + r.lost) ∧
      ((∀ n ≤ moves.length,
          (first.after (moves.take n)).unread ≤ Broker.roundedUp capacity) →
        r.lost = 0 ∧
          r.forwarded ++ r.intake.held.toList ++
            onTopic topic (r.sent.drop (r.sent.length - r.unread)) = onTopic topic r.sent) := by
  intro first r
  have hfirst := stands_start capacity records early topic size
  obtain ⟨behind, ahead, h⟩ := hfirst.after moves
  have hbalance : r.sent.length =
      r.forwarded.length + r.intake.held.toList.length + r.skipped.length + r.lost +
        r.unread := by
    rw [h.sent, List.length_append, h.balance, h.unread, List.length_append]
  refine ⟨?_, ?_, hbalance, ?_, ?_⟩
  · rw [h.sent, onTopic_append]
    exact ((List.sublist_append_left ..).trans h.inOrder).trans (List.sublist_append_left ..)
  · rw [h.sent, offTopic_append]
    exact h.skipped.trans (List.sublist_append_left ..)
  · rintro ⟨hunread, hheld⟩
    rw [hunread, hheld] at hbalance
    exact hbalance
  · intro hunread
    have hlost : r.lost = 0 := hfirst.lost_after hunread
    refine ⟨hlost, ?_⟩
    rw [h.complete hlost, h.sent, h.unread, List.length_append, Nat.add_sub_cancel,
      List.drop_left, onTopic_append]

/-- A reader that falls behind twice on a broker that keeps two messages, with an inbox for one, and
one that keeps up. -/
theorem nothing_lost_silently_lagging :
    let e : Envelope := .blank (.ofMillis 0)
    let first := start 2 true [⟨"audit", e⟩] "orders" 1
    let late : List Move := [.send "orders" e, .send "audit" e, .send "orders" e, .step, .step,
      .send "orders" (e.withTag "a"), .step, .send "orders" e, .send "audit" e, .send "orders" e,
      .step, .take, .step, .step, .step, .take, .step, .step]
    let prompt : List Move := [.send "orders" e, .step, .send "audit" e, .trouble 1 true,
      .send "orders" e, .step, .send "orders" (e.withTag "a"), .step, .take, .step, .step]
    ((first.after late).sent.length = 7 ∧ (first.after late).lost = 3 ∧
      (first.after late).sent.length = (first.after late).forwarded.length +
        (first.after late).skipped.length + (first.after late).lost) ∧
      (first.after prompt).lost = 0 ∧
        (first.after prompt).forwarded = [e, e.withTag "a"] := by
  intro e first late prompt
  obtain ⟨-, -, -, hlate, -⟩ :=
    nothing_lost_silently 2 true [⟨"audit", e⟩] "orders" 1 late
  obtain ⟨-, -, -, -, hprompt⟩ :=
    nothing_lost_silently 2 true [⟨"audit", e⟩] "orders" 1 prompt
  refine ⟨⟨by decide +kernel, by decide +kernel, hlate ⟨by decide +kernel, by decide +kernel⟩⟩,
    (hprompt (by decide +kernel)).1, by decide +kernel⟩

end Relay

end Takeaway
