import Mathlib.Data.List.Sort
import Mathlib.Data.String.Basic
import Takeaway.Proofs.Index
import Takeaway.Proofs.World.Clock
import Takeaway.Proofs.World.Steady

/-!
The parts of the world that flows can have in common. Main statements: an action answers by the parts
that it touches, and changes no other; and so does a wait, except that notices under way are tried
meanwhile.
-/

namespace Takeaway

/-- What flows can have in common. -/
inductive Part where
  /-- The orders, and how the store answers. -/
  | store
  /-- The units of an item. -/
  | item (name : String)
  /-- The broker and the notices under way. -/
  | mail
  /-- The keys of kitchen requests. -/
  | keys
  /-- The counts of messages handled, and counts that are looked at. -/
  | counts

/-- Whether the router counts messages in a series. -/
def Series.isRouters : Series → Bool
  | .commands _ _ | .commandTimes _ | .unroutedEvents => true
  | _ => false

/-- What an action depends on, or changes. -/
def Action.Touches : Action → Part → Prop
  | .clock, _ | .deadline _, _ => False
  | .lag _, p | .nextNumber, p | .fetch _, p | .search _, p | .save _, p => p = .store
  | .onHand i, p | .take i _, p | .add i _, p => p = .item i
  | .inventory, p => ∃ i, p = .item i
  | .send _, p | .note _, p => p = .mail
  | .freshKey, p => p = .keys
  | .count s _, p => p = .counts ∧ s.isRouters = true
  | .metrics, p => p = .counts

/-- What a wait depends on, beside the clock. -/
def Wait.Touches : Wait → Part → Prop
  | .pause _, _ | .forever, _ => False
  | .slot, p => p = .mail

namespace World

variable {w w' v v' u : World} {P : Part → Prop}

/-! ### Worlds with the same mail -/

/-- As far as messages and the clock go, the one world is the other. -/
structure SameMail (w v : World) : Prop where
  now : v.now = w.now
  topic : v.topic = w.topic
  broker : v.broker = w.broker
  notices : v.notices = w.notices

namespace SameMail

theorem count (h : SameMail w v) (s : Series) (n : Nat) : SameMail (w.count s n) (v.count s n) :=
  ⟨h.now, h.topic, h.broker, h.notices⟩

/-- An attempt to send comes to the same. -/
theorem send (h : SameMail w v) (e : Envelope) :
    ∃ r w₁ v₁, w.send e = (r, w₁) ∧ v.send e = (r, v₁) ∧ SameMail w₁ v₁ := by
  refine ⟨(w.send e).1, (w.send e).2, (v.send e).2, rfl, ?_, ?_⟩ <;> unfold World.send <;>
    rw [h.broker, h.topic]
  exact ⟨h.now, rfl, rfl, h.notices⟩

theorem turn (h : SameMail w v) (e : Envelope) (left : Nat) :
    ∃ s w₁ v₁, w.turn e left = (w₁, s) ∧ v.turn e left = (v₁, s) ∧ SameMail w₁ v₁ := by
  induction left generalizing w v with
  | zero =>
    obtain ⟨r, w₁, v₁, hw, hv, hsame⟩ := h.send e
    unfold World.turn
    rw [hw, hv]
    cases r with
    | ok a => exact ⟨none, w₁, v₁, rfl, rfl, hsame⟩
    | error f => exact ⟨none, _, _, rfl, rfl, hsame.count .notificationsFailed 1⟩
  | succ left ih =>
    obtain ⟨r, w₁, v₁, hw, hv, hsame⟩ := h.send e
    unfold World.turn
    rw [hw, hv]
    cases r with
    | ok a => exact ⟨none, w₁, v₁, rfl, rfl, hsame⟩
    | error f =>
      have hretry := hsame.count .sendRetries 1
      dsimp only
      rw [hretry.notices, hretry.now]
      by_cases hf : f.isTransient = true
      · rw [if_pos hf, if_pos hf]
        split
        · exact ih hretry
        · exact ⟨_, _, _, rfl, rfl, hretry⟩
      · rw [if_neg hf, if_neg hf]
        exact ⟨none, _, _, rfl, rfl, hsame.count .notificationsFailed 1⟩

theorem turns (h : SameMail w v) (l : List Notice) : SameMail (w.turns l) (v.turns l) := by
  induction l generalizing w v with
  | nil => exact h
  | cons n r ih =>
    obtain ⟨s, w₁, v₁, hw, hv, hsame⟩ := h.turn n.envelope n.left
    unfold World.turns
    rw [hw, hv]
    cases s with
    | none => exact ih hsame
    | some s =>
      refine ih ⟨hsame.now, hsame.topic, hsame.broker, ?_⟩
      dsimp only
      rw [hsame.notices]

theorem turnReady (h : SameMail w v) : SameMail w.turnReady v.turnReady := by
  unfold World.turnReady
  rw [h.notices]
  refine turns ?_ _
  exact ⟨h.now, h.topic, h.broker, rfl⟩

theorem wake (h : SameMail w v) (n : Nat) : SameMail (w.wake n) (v.wake n) := by
  unfold World.wake
  rw [h.notices]
  refine turns ?_ _
  exact ⟨h.now, h.topic, h.broker, rfl⟩

theorem reach (h : SameMail w v) (tick : Nat) : SameMail (w.reach tick) (v.reach tick) :=
  ⟨congrArg (max · tick) h.now, h.topic, h.broker, h.notices⟩

theorem dueBy (h : SameMail w v) (tick : Nat) : v.dueBy tick = w.dueBy tick := by
  unfold World.dueBy
  rw [h.notices]

theorem advance (h : SameMail w v) : SameMail w.advance v.advance := by
  unfold World.advance
  rw [h.notices]
  split
  · exact h
  · rw [h.dueBy]
    exact (h.reach _).wake _

theorem advanceWhile {test : World → Bool} (htest : ∀ w v, SameMail w v → test v = test w)
    (turns : Nat) (h : SameMail w v) :
    SameMail (advanceWhile test turns w) (advanceWhile test turns v) := by
  induction turns generalizing w v with
  | zero => exact h
  | succ turns ih =>
    unfold World.advanceWhile
    rw [h.notices, htest w v h]
    split
    · exact ih h.advance
    · exact h

theorem passWhile {test : World → Bool} (htest : ∀ w v, SameMail w v → test v = test w)
    (h : SameMail w v) : SameMail (w.passWhile test) (v.passWhile test) := by
  unfold World.passWhile
  dsimp only
  rw [h.turnReady.notices]
  exact h.turnReady.advanceWhile htest _

theorem rouse (h : SameMail w v) : SameMail w.rouse v.rouse := by
  unfold World.rouse
  dsimp only
  rw [h.notices, h.now, h.dueBy]
  exact ⟨rfl, h.topic, h.broker, rfl⟩

theorem passUntil (h : SameMail w v) (rank : Rank) (tick : Nat) :
    SameMail (w.passUntil rank tick) (v.passUntil rank tick) := by
  unfold World.passUntil
  dsimp only
  rw [h.notices]
  refine (((h.passWhile fun w v hsame => ?_).reach tick).wake _).rouse
  rw [hsame.notices]

theorem passForRoom (h : SameMail w v) : SameMail w.passForRoom v.passForRoom := by
  unfold World.passForRoom
  rw [h.notices]
  split
  · exact h
  · refine h.passWhile fun w v hsame => ?_
    rw [hsame.notices]

/-- **A wait comes to the same**, and goes on to leave the same mail. -/
theorem await (h : SameMail w v) (rank : Rank) (wt : Wait) (limit : Option Nat) :
    (v.await rank wt limit).1 = (w.await rank wt limit).1 ∧
      SameMail (w.await rank wt limit).2 (v.await rank wt limit).2 := by
  unfold World.await
  rw [h.now]
  split
  · exact ⟨rfl, h⟩
  · exact ⟨rfl, h.passUntil rank _⟩
  · exact ⟨rfl, h.passForRoom⟩
  · exact ⟨rfl, h⟩

end SameMail

/-! ### Worlds that agree on some parts -/

/-- In the parts `P` the one world is the other. -/
structure Alike (P : Part → Prop) (w v : World) : Prop where
  store : P .store → v.store = w.store
  announces : v.stock.announces = w.stock.announces
  item : ∀ i, P (.item i) → v.stock.counts.find? i = w.stock.counts.find? i
  mail : P .mail → v.topic = w.topic ∧ v.broker = w.broker ∧ v.notices = w.notices
  keys : P .keys → v.keys = w.keys

namespace Alike

protected theorem refl (P : Part → Prop) (w : World) : Alike P w w :=
  ⟨fun _ => rfl, rfl, fun _ _ => rfl, fun _ => ⟨rfl, rfl, rfl⟩, fun _ => rfl⟩

protected theorem trans (h : Alike P w v) (h' : Alike P v u) : Alike P w u where
  store hP := (h'.store hP).trans (h.store hP)
  announces := h'.announces.trans h.announces
  item i hP := (h'.item i hP).trans (h.item i hP)
  mail hP := by
    obtain ⟨htopic, hbroker, hnotices⟩ := h.mail hP
    obtain ⟨htopic', hbroker', hnotices'⟩ := h'.mail hP
    exact ⟨htopic'.trans htopic, hbroker'.trans hbroker, hnotices'.trans hnotices⟩
  keys hP := (h'.keys hP).trans (h.keys hP)

protected theorem symm (h : Alike P w v) : Alike P v w where
  store hP := (h.store hP).symm
  announces := h.announces.symm
  item i hP := (h.item i hP).symm
  mail hP := by
    obtain ⟨htopic, hbroker, hnotices⟩ := h.mail hP
    exact ⟨htopic.symm, hbroker.symm, hnotices.symm⟩
  keys hP := (h.keys hP).symm

theorem mono {Q : Part → Prop} (h : Alike P w v) (hQ : ∀ p, Q p → P p) : Alike Q w v :=
  ⟨fun hp => h.store (hQ _ hp), h.announces, fun i hp => h.item i (hQ _ hp),
    fun hp => h.mail (hQ _ hp), fun hp => h.keys (hQ _ hp)⟩

/-- What is counted is no part of the world. -/
theorem count (h : Alike P w v) (s t : Series) : Alike P (w.count s 1) (v.count t 1) :=
  ⟨h.store, h.announces, h.item, h.mail, h.keys⟩

theorem onHand (h : Alike P w v) {i : String} (hi : P (.item i)) :
    v.stock.onHand i = w.stock.onHand i := by
  unfold Stock.onHand
  rw [h.item i hi]

/-- Worlds that agree on all items have the same stock. -/
theorem counts (h : Alike P w v) (hP : ∀ i, P (.item i)) : v.stock.counts = w.stock.counts := by
  have hsorted : ∀ n : Index String Quantity, n.keys.Pairwise (· < ·) := fun n =>
    List.pairwise_map.2 n.ascending
  refine Index.ext_find? ((hsorted _).eq_of_mem_iff (hsorted _) fun i => ?_) fun i => h.item i (hP i)
  rw [Index.mem_keys, Index.mem_keys, h.item i (hP i)]

theorem alone (h : Alike P w v) (hP : P .mail) (hw : w.Alone) : v.Alone := by
  obtain ⟨-, -, hnotices⟩ := h.mail hP
  exact ⟨by rw [hnotices]; exact hw.ready, by rw [hnotices]; exact hw.asleep⟩

/-- Worlds that agree on all parts but the messages, and on these too. -/
theorem of_sameMail (h : Alike (fun p => P p ∧ p ≠ .mail) w v) (hsame : SameMail w v) :
    Alike P w v :=
  ⟨fun hp => h.store ⟨hp, by simp⟩, h.announces, fun i hp => h.item i ⟨hp, by simp⟩,
    fun _ => ⟨hsame.topic, hsame.broker, hsame.notices⟩, fun hp => h.keys ⟨hp, by simp⟩⟩

/-- Counts are no part of the world, and the clock is none either. -/
theorem of_same (hstore : v.store = w.store) (hstock : v.stock = w.stock)
    (htopic : v.topic = w.topic) (hbroker : v.broker = w.broker) (hnotices : v.notices = w.notices)
    (hkeys : v.keys = w.keys) : Alike P w v :=
  ⟨fun _ => hstore, by rw [hstock], fun _ _ => by rw [hstock], fun _ => ⟨htopic, hbroker, hnotices⟩,
    fun _ => hkeys⟩

end Alike

/-! ### Actions -/

theorem perform_now (w : World) (a : Action) : (w.perform a).2.now = w.now := by
  cases a with
  | nextNumber =>
    rcases w.nextNumber_cases with ⟨f, heq⟩ | heq <;> rw [heq]
    rfl
  | save o =>
    rcases w.save_cases o with ⟨f, heq⟩ | heq <;> rw [heq]
    rfl
  | take item q =>
    rcases w.take_cases item q with ⟨f, heq⟩ | ⟨s, -, heq⟩ <;> rw [heq]
    rfl
  | add item q =>
    obtain ⟨counts, heq⟩ := w.add_eq item q
    rw [heq]
  | _ => rfl

/-- What becomes of the store becomes of it in worlds with the same one. -/
theorem Alike.stored {α : Type} (h : Alike P w v)
    (x : Except Outage (α × ScriptedStore)) :
    (v.stored x).1 = (w.stored x).1 ∧ Alike P (w.stored x).2 (v.stored x).2 := by
  cases x with
  | error f => exact ⟨rfl, h⟩
  | ok y => exact ⟨rfl, fun _ => rfl, h.announces, h.item, h.mail, h.keys⟩

/-- The count of one item is set in both worlds. -/
theorem Alike.seed (h : Alike P w v) (i : String) (q : Quantity) (m m' : Metrics) :
    Alike P { w with stock := w.stock.seed i q, metrics := m }
      { v with stock := v.stock.seed i q, metrics := m' } where
  store := h.store
  announces := h.announces
  item j hj := by
    show (v.stock.counts.insert i q).find? j = (w.stock.counts.insert i q).find? j
    by_cases hij : i = j
    · subst hij
      rw [Index.find?_insert_self, Index.find?_insert_self]
    · rw [Index.find?_insert_of_ne _ _ hij, Index.find?_insert_of_ne _ _ hij, h.item j hj]
  mail := h.mail
  keys := h.keys

theorem Alike.take (h : Alike P w v) {i : String} (hi : P (.item i)) (q : Quantity) :
    (v.take i q).1 = (w.take i q).1 ∧ Alike P (w.take i q).2 (v.take i q).2 := by
  unfold World.take Stock.take
  rw [h.onHand hi]
  by_cases hq : q.units = 0
  · rw [if_pos hq, if_pos hq]
    exact ⟨rfl, h⟩
  · rw [if_neg hq, if_neg hq]
    by_cases hless : (w.stock.onHand i).units < q.units
    · rw [if_pos hless, if_pos hless]
      exact ⟨rfl, h.store, h.announces, h.item, h.mail, h.keys⟩
    · rw [if_neg hless, if_neg hless]
      exact ⟨rfl, h.seed i _ w.metrics v.metrics⟩

/-- **An action answers by the parts that it touches**, and changes them in the same way. -/
theorem Alike.perform (h : Alike P w v) (hnow : v.now = w.now) {a : Action}
    (ha : ∀ p, a.Touches p → P p) (hcounts : ¬ P .counts) :
    (v.perform a).1 = (w.perform a).1 ∧ Alike P (w.perform a).2 (v.perform a).2 := by
  have htime : v.time = w.time := congrArg Timestamp.ofMillis hnow
  cases a with
  | clock => exact ⟨htime, h⟩
  | deadline t => exact ⟨congrArg (fun n => Deadline.mk (n + t.ticks) t) hnow, h⟩
  | lag c => exact ⟨congrArg (·.lag c) (h.store (ha _ rfl)), h⟩
  | nextNumber =>
    show (v.stored v.store.nextNumber).1 = _ ∧ Alike P _ (v.stored v.store.nextNumber).2
    rw [h.store (ha _ rfl)]
    exact h.stored _
  | fetch n => exact ⟨congrArg (·.get? n) (h.store (ha _ rfl)), h⟩
  | search f => exact ⟨congrArg (·.find f) (h.store (ha _ rfl)), h⟩
  | save o =>
    show (v.stored ((v.store.upsert o v.time).map fun s => ((), s))).1 = _ ∧
      Alike P _ (v.stored ((v.store.upsert o v.time).map fun s => ((), s))).2
    rw [h.store (ha _ rfl), htime]
    exact h.stored _
  | onHand i => exact ⟨h.onHand (ha _ rfl), h⟩
  | take i q => exact h.take (ha _ rfl) q
  | add i q =>
    obtain ⟨m, hw⟩ := w.add_eq i q
    obtain ⟨m', hv⟩ := v.add_eq i q
    rw [hw, hv, h.announces]
    unfold Stock.add
    rw [h.onHand (ha _ rfl)]
    exact ⟨rfl, h.seed i _ m m'⟩
  | inventory => exact ⟨h.counts fun i => ha _ ⟨i, rfl⟩, h⟩
  | send e =>
    obtain ⟨htopic, hbroker, hnotices⟩ := h.mail (ha _ rfl)
    show (v.send e).1 = (w.send e).1 ∧ Alike P (w.send e).2 (v.send e).2
    unfold World.send
    rw [hbroker, htopic]
    exact ⟨rfl, h.store, h.announces, h.item, fun _ => ⟨rfl, rfl, hnotices⟩, h.keys⟩
  | note e =>
    obtain ⟨htopic, hbroker, hnotices⟩ := h.mail (ha _ rfl)
    refine ⟨rfl, h.store, h.announces, h.item, fun _ => ⟨htopic, hbroker, ?_⟩, h.keys⟩
    show ({ v.notices with ready := v.notices.ready ++ [⟨e, v.notices.policy.limit - 1⟩] } :
      Notices) = { w.notices with ready := w.notices.ready ++ [⟨e, w.notices.policy.limit - 1⟩] }
    rw [hnotices]
  | freshKey =>
    have hkeys := h.keys (ha _ rfl)
    exact ⟨congrArg RequestKey.ofSerial hkeys, h.store, h.announces, h.item, h.mail,
      fun _ => congrArg (· + 1) hkeys⟩
  | count s n => exact ⟨rfl, h.store, h.announces, h.item, h.mail, h.keys⟩
  | metrics => exact absurd (ha _ rfl) hcounts

/-- To set the count of one item leaves the others alone. -/
theorem alike_seed {i : String} (hi : ¬ P (.item i)) (q : Quantity) (m : Metrics) (w : World) :
    Alike P w { w with stock := w.stock.seed i q, metrics := m } := by
  refine ⟨fun _ => rfl, rfl, fun j hj => ?_, fun _ => ⟨rfl, rfl, rfl⟩, fun _ => rfl⟩
  refine Index.find?_insert_of_ne _ _ ?_
  rintro rfl
  exact hi hj

theorem alike_take {i : String} (hi : ¬ P (.item i)) (q : Quantity) (w : World) :
    Alike P w (w.take i q).2 := by
  unfold World.take Stock.take
  by_cases hq : q.units = 0
  · rw [if_pos hq]
    exact .refl P w
  · rw [if_neg hq]
    by_cases hless : (w.stock.onHand i).units < q.units
    · rw [if_pos hless]
      exact .of_same rfl rfl rfl rfl rfl rfl
    · rw [if_neg hless]
      exact alike_seed hi _ w.metrics w

/-- **An action leaves alone what it does not touch.** -/
theorem alike_perform {a : Action} (ha : ∀ p, a.Touches p → ¬ P p) (w : World) :
    Alike P w (w.perform a).2 := by
  cases a with
  | nextNumber =>
    rcases w.nextNumber_cases with ⟨f, heq⟩ | heq <;> rw [heq]
    · exact .refl P w
    · exact ⟨fun hP => absurd hP (ha _ rfl), rfl, fun _ _ => rfl, fun _ => ⟨rfl, rfl, rfl⟩,
        fun _ => rfl⟩
  | save o =>
    rcases w.save_cases o with ⟨f, heq⟩ | heq <;> rw [heq]
    · exact .refl P w
    · exact ⟨fun hP => absurd hP (ha _ rfl), rfl, fun _ _ => rfl, fun _ => ⟨rfl, rfl, rfl⟩,
        fun _ => rfl⟩
  | take i q => exact alike_take (ha _ rfl) q w
  | add i q =>
    obtain ⟨m, hw⟩ := w.add_eq i q
    rw [hw]
    exact alike_seed (ha _ rfl) _ m w
  | send e =>
    exact ⟨fun _ => rfl, rfl, fun _ _ => rfl, fun hP => absurd hP (ha _ rfl), fun _ => rfl⟩
  | note e =>
    exact ⟨fun _ => rfl, rfl, fun _ _ => rfl, fun hP => absurd hP (ha _ rfl), fun _ => rfl⟩
  | freshKey =>
    exact ⟨fun _ => rfl, rfl, fun _ _ => rfl, fun _ => ⟨rfl, rfl, rfl⟩,
      fun hP => absurd hP (ha _ rfl)⟩
  | _ => exact .of_same rfl rfl rfl rfl rfl rfl

/-! ### Waits -/

/-- What attempts to send and the passing of time do is no more than to the messages. -/
theorem lasts_alike (hmail : ¬ P .mail) (w : World) : Lasts (Alike P w) where
  send _ _ h := h.trans ⟨fun _ => rfl, rfl, fun _ _ => rfl, fun hP => absurd hP hmail, fun _ => rfl⟩
  count _ _ _ h := h.trans (.of_same rfl rfl rfl rfl rfl rfl)
  moved _ _ _ h := h.trans
    ⟨fun _ => rfl, rfl, fun _ _ => rfl, fun hP => absurd hP hmail, fun _ => rfl⟩

theorem alike_await_of_mail (hmail : ¬ P .mail) (w : World) (rank : Rank) (wt : Wait)
    (limit : Option Nat) : Alike P w (w.await rank wt limit).2 :=
  (lasts_alike hmail w).await rank wt limit (.refl P w)

/-- **A wait leaves alone all but the messages**, and these too where no notice is under way. -/
theorem alike_await (hmail : P .mail → w.Alone) (rank : Rank) (wt : Wait) (limit : Option Nat) :
    Alike P w (w.await rank wt limit).2 := by
  by_cases hP : P .mail
  · obtain ⟨tick, htick⟩ := (hmail hP).await rank wt limit
    rw [htick]
    exact .of_same rfl rfl rfl rfl rfl rfl
  · exact alike_await_of_mail hP w rank wt limit

/-- A wait for anything but room is over now, later, or never. -/
theorem outcome_cases {wt : Wait} (hwt : wt ≠ .slot) (now : Nat) (limit : Option Nat) :
    (∃ reached, wt.outcome now limit = .now reached) ∨
      (∃ tick reached, now ≤ tick ∧ wt.outcome now limit = .later tick reached) ∨
        wt.outcome now limit = .never := by
  cases wt with
  | slot => exact absurd rfl hwt
  | pause s =>
    cases limit <;> simp only [Wait.outcome] <;> split_ifs
    · exact .inl ⟨_, rfl⟩
    · exact .inr (.inl ⟨_, _, Nat.le_add_right .., rfl⟩)
    · exact .inl ⟨_, rfl⟩
    · exact .inr (.inl ⟨_, _, Nat.le_add_right .., rfl⟩)
    · exact .inl ⟨_, rfl⟩
    · exact .inr (.inl ⟨_, _, by omega, rfl⟩)
  | forever =>
    cases limit with
    | none => exact .inr (.inr rfl)
    | some limit =>
      simp only [Wait.outcome]
      split_ifs
      · exact .inl ⟨_, rfl⟩
      · exact .inr (.inl ⟨_, _, by omega, rfl⟩)

/-- Who waits for room waits for room for a notice. -/
theorem eq_slot_of_room {wt : Wait} {now : Nat} {limit : Option Nat}
    (h : wt.outcome now limit = .room) : wt = .slot := by
  by_contra hne
  rcases outcome_cases hne now limit with ⟨_, ho⟩ | ⟨_, _, -, ho⟩ | ho <;>
    exact absurd (h.symm.trans ho) (by simp)

/-- A wait that is over later is not over now. -/
theorem lt_of_later {wt : Wait} {now tick : Nat} {limit : Option Nat} {reached : Bool}
    (h : wt.outcome now limit = .later tick reached) : now < tick := by
  cases wt with
  | slot => cases h
  | pause s =>
    cases limit <;> simp only [Wait.outcome] at h <;> split_ifs at h <;> cases h <;> omega
  | forever =>
    cases limit with
    | none => cases h
    | some limit =>
      simp only [Wait.outcome] at h
      split_ifs at h
      cases h
      omega

theorem await_of_never (rank : Rank) {wt : Wait} {limit : Option Nat}
    (h : wt.outcome w.now limit = .never) : w.await rank wt limit = (false, w) := by
  unfold World.await
  rw [h]

/-- The clock alone decides what a wait for anything but room comes to. -/
theorem await_of_clock (hnow : v.now = w.now) (rank : Rank) {wt : Wait} (hwt : wt ≠ .slot)
    (limit : Option Nat) : (v.await rank wt limit).1 = (w.await rank wt limit).1 ∧
      (v.await rank wt limit).2.now = (w.await rank wt limit).2.now := by
  rcases outcome_cases hwt w.now limit with ⟨reached, ho⟩ | ⟨tick, reached, hle, ho⟩ | ho
  · rw [await_of_now rank ho, await_of_now rank (hnow ▸ ho)]
    exact ⟨rfl, hnow⟩
  · rw [await_of_later rank ho, await_of_later rank (hnow ▸ ho)]
    exact ⟨rfl, (passUntil_now rank (hnow ▸ hle)).trans (passUntil_now rank hle).symm⟩
  · rw [await_of_never rank ho, await_of_never rank (hnow ▸ ho)]
    exact ⟨rfl, hnow⟩

/-- **A wait comes to the same in worlds that agree on what it touches.** -/
theorem Alike.await (h : Alike P w v) (hnow : v.now = w.now) (rank : Rank) {wt : Wait}
    (hwt : ∀ p, wt.Touches p → P p) (limit : Option Nat) :
    (v.await rank wt limit).1 = (w.await rank wt limit).1 ∧
      (v.await rank wt limit).2.now = (w.await rank wt limit).2.now ∧
      Alike P (w.await rank wt limit).2 (v.await rank wt limit).2 := by
  by_cases hP : P .mail
  · obtain ⟨htopic, hbroker, hnotices⟩ := h.mail hP
    obtain ⟨hreached, hsame⟩ := SameMail.await ⟨hnow, htopic, hbroker, hnotices⟩ rank wt limit
    -- the other parts are left alone by both waits
    have hrest : Alike (fun p => P p ∧ p ≠ .mail) (w.await rank wt limit).2
        (v.await rank wt limit).2 :=
      (alike_await_of_mail (by simp) w rank wt limit).symm.trans
        ((h.mono fun p hp => hp.1).trans (alike_await_of_mail (by simp) v rank wt limit))
    exact ⟨hreached, hsame.now, hrest.of_sameMail hsame⟩
  · have hslot : wt ≠ .slot := by
      rintro rfl
      exact hP (hwt _ rfl)
    obtain ⟨hreached, hclock⟩ := await_of_clock hnow rank hslot limit
    exact ⟨hreached, hclock, (alike_await_of_mail hP w rank wt limit).symm.trans
      (h.trans (alike_await_of_mail hP v rank wt limit))⟩

/-! ### Counts of the router -/

theorem value_count_of_ne {s t : Series} (h : t ≠ s) (w : World) (n : Nat) :
    (w.count s n).metrics.value t = w.metrics.value t := by
  show (w.metrics.count s n).value t = _
  rw [Metrics.value_count, if_neg h, Nat.add_zero]

theorem value_count_one (w : World) (s t : Series) :
    (w.count t 1).metrics.value s = w.metrics.value s + if t == s then 1 else 0 := by
  refine (w.metrics.value_count t s 1).trans ?_
  simp only [beq_iff_eq, eq_comm (a := t)]

/-- An action leaves the counts of the router as they are, unless it counts for it. -/
theorem value_perform {a : Action} (ha : ¬ a.Touches .counts) {s : Series}
    (hs : s.isRouters = true) (w : World) :
    (w.perform a).2.metrics.value s = w.metrics.value s := by
  cases a with
  | nextNumber =>
    rcases w.nextNumber_cases with ⟨f, heq⟩ | heq <;> rw [heq]
    rfl
  | save o =>
    rcases w.save_cases o with ⟨f, heq⟩ | heq <;> rw [heq]
    rfl
  | take i q =>
    rcases w.take_cases i q with ⟨f, heq⟩ | ⟨t, -, heq⟩ <;> rw [heq]
    refine value_count_of_ne ?_ w 1
    rintro rfl
    cases hs
  | add i q =>
    show (w.add i q).metrics.value s = _
    unfold World.add
    dsimp only
    split
    · refine value_count_of_ne ?_ w 1
      rintro rfl
      cases hs
    · rfl
  | count t n =>
    refine value_count_of_ne ?_ w n
    rintro rfl
    exact ha ⟨rfl, hs⟩
  | _ => rfl

/-- Nor do attempts to send and the passing of time count for the router. -/
theorem lasts_value {s : Series} (hs : s.isRouters = true) (k : Nat) :
    Lasts fun w => w.metrics.value s = k where
  send _ _ hw := hw
  count w t ht hw := by
    refine (value_count_of_ne ?_ w 1).trans hw
    rintro rfl
    rcases ht with rfl | rfl <;> cases hs
  moved _ _ _ hw := hw

theorem value_await {s : Series} (hs : s.isRouters = true) (w : World) (rank : Rank) (wt : Wait)
    (limit : Option Nat) : (w.await rank wt limit).2.metrics.value s = w.metrics.value s :=
  (lasts_value hs _).await rank wt limit rfl

end World

end Takeaway
