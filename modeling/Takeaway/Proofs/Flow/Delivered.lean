import Takeaway.Proofs.Message.Retry
import Takeaway.Proofs.Flow.Anyhow
import Takeaway.Proofs.Placement
import Takeaway.Proofs.World.Clear

/-!
What comes of the attempts of a flow to send. Main statements: what a run delivers and what it hands
over is all that comes to the messages sent or under way; where no notice is under way, the first
attempts of a run fail, as many as the broker was told to; and where sending works, all that is said
is delivered or goes on to be under way.
-/

namespace Takeaway

open World (Aside Mail)

/-! ### Attempts -/

namespace Deed

/-- The answer to an attempt to send. -/
def reply (d : Deed) : Option (Except MessageFailure Unit) :=
  match d.action with
  | .send e => some (d.before.send e).1
  | _ => none

/-- The message that an attempt delivered. -/
def delivered (d : Deed) : List Envelope :=
  match d.action with
  | .send e => if (d.before.send e).1 = .ok () then [e] else []
  | _ => []

variable {w v : World} {x : Envelope}

theorem delivered_sublist (d : Deed) : d.delivered.Sublist d.sent := by
  obtain ⟨w, a, v⟩ := d
  cases a with
  | send e =>
    show (if (w.send e).1 = .ok () then [e] else []).Sublist [e]
    split
    · exact List.Sublist.refl _
    · exact List.nil_sublist _
  | _ => exact List.Sublist.refl _

theorem reply_send {r : Except MessageFailure Unit} (h : w.send x = (r, v)) :
    (Deed.mk w (.send x) v).reply = some r := by
  show some (w.send x).1 = some r
  rw [h]

end Deed

/-! ### What was delivered -/

namespace World

variable {w w' w'' : World} {a b a' b' : Multiset Envelope}

theorem sentUntil_trans (h : w.broker.history <+: w'.broker.history)
    (h' : w'.broker.history <+: w''.broker.history) :
    w.sentUntil w'' = w.sentUntil w' + w'.sentUntil w'' := by
  obtain ⟨t, ht⟩ := h
  obtain ⟨t', ht'⟩ := h'
  unfold sentUntil
  rw [← ht', List.drop_left, ← ht, List.append_assoc, List.drop_left, List.drop_left,
    List.map_append, Multiset.coe_add]

/-- Nothing comes to the messages sent or under way but the messages `a`, which were sent, and the
messages `b`. -/
structure Delivers (a b : Multiset Envelope) (w w' : World) : Prop extends Mail (a + b) w w' where
  recorded : w.broker.records = true → a ≤ w.sentUntil w'

namespace Delivers

theorem of_mail (h : Mail b w w') : Delivers 0 b w w' where
  toMail := by rwa [zero_add]
  recorded _ := Multiset.zero_le _

protected theorem trans (h : Delivers a b w w') (h' : Delivers a' b' w' w'') :
    Delivers (a + a') (b + b') w w'' where
  toMail := by
    rw [add_add_add_comm]
    exact h.toMail.trans h'.toMail
  recorded hr := by
    rw [sentUntil_trans h.history h'.history]
    exact add_le_add (h.recorded hr) (h'.recorded (h.records.trans hr))

theorem zero_trans (h : Aside 0 w w') (h' : Delivers a b w' w'') : Delivers a b w w'' := by
  simpa using (of_mail h.toMail).trans h'

end Delivers

theorem delivers_perform (w : World) (x : Action) :
    Delivers ((Deed.mk w x (w.perform x).2).delivered : List Envelope)
      ((Deed.mk w x (w.perform x).2).noted : List Envelope) w (w.perform x).2 := by
  by_cases hx : x.isSend = true
  · cases x with
    | send e =>
      show Delivers ((if (w.send e).1 = .ok () then [e] else [] : List Envelope)) 0 w (w.send e).2
      rcases w.send_blocked_or e with ⟨f, hf, -, -⟩ | ⟨-, heq⟩
      · rw [if_neg (by rw [hf]; rintro ⟨⟩)]
        exact .of_mail (aside_send_error (Prod.ext hf rfl)).2.toMail
      · refine ⟨?_, fun hr => ?_⟩
        · rw [add_zero, if_pos (by rw [heq])]
          exact (w.aside_send e).toMail
        · have hdeliver : (w.broker.deliver ⟨w.topic, e⟩).history =
              w.broker.history ++ [⟨w.topic, e⟩] := if_pos hr
          rw [if_pos (by rw [heq]), heq]
          unfold sentUntil
          rw [hdeliver, List.drop_left]
          exact le_rfl
    | _ => cases hx
  · have hmail := w.mail_perform x
    cases x with
    | send e => exact absurd rfl hx
    | _ => exact .of_mail hmail

end World

namespace Deeds

/-- The answers to the attempts to send. -/
def replies (l : List Deed) : Replies := l.filterMap Deed.reply

/-- The messages that were delivered. -/
def delivered (l : List Deed) : List Envelope := l.flatMap Deed.delivered

variable {l l' : List Deed}

theorem delivered_append : delivered (l ++ l') = delivered l ++ delivered l' :=
  List.flatMap_append

/-- Still deeds deliver nothing. -/
theorem Tally.delivered_eq_nil (h : Still l) : delivered l = [] := by
  have hsent : ∀ d ∈ l, d.sent = [] := List.flatMap_eq_nil_iff.1 h.sent
  refine List.flatMap_eq_nil_iff.2 fun d hd => ?_
  exact List.sublist_nil.1 (hsent d hd ▸ d.delivered_sublist)

/-- Of the attempts to send exactly the first `k` failed, each of them for the moment. -/
def FailsFirst (k : Nat) (l : List Deed) : Prop :=
  ∀ i r, (replies l)[i]? = some r → if i < k then FailsForNow r else r = .ok ()

theorem failsFirst_cons_of_none {d : Deed} (hd : d.reply = none) {k : Nat} :
    FailsFirst k (d :: l) ↔ FailsFirst k l := by
  unfold FailsFirst replies
  rw [List.filterMap_cons_none hd]

/-- The first attempt fails unless none does, and then the others count as many failures less. -/
theorem failsFirst_cons_of_some {d : Deed} {r : Except MessageFailure Unit} (hd : d.reply = some r)
    {k : Nat} : FailsFirst k (d :: l) ↔
      (if 0 < k then FailsForNow r else r = .ok ()) ∧ FailsFirst (k - 1) l := by
  unfold FailsFirst replies
  rw [List.filterMap_cons_some hd]
  constructor
  · refine fun h => ⟨h 0 r rfl, fun i s hs => ?_⟩
    have hnext := h (i + 1) s hs
    have hlt : i + 1 < k ↔ i < k - 1 := by omega
    simpa only [hlt] using hnext
  · rintro ⟨hfirst, hrest⟩ i s hs
    cases i with
    | zero =>
      cases hs
      exact hfirst
    | succ i =>
      have hlt : i + 1 < k ↔ i < k - 1 := by omega
      simpa only [hlt] using hrest i s hs

namespace FailsFirst

variable {d : Deed} {k : Nat}

theorem of_ok (h : FailsFirst k (d :: l)) (hd : d.reply = some (.ok ())) : k = 0 := by
  obtain ⟨hfirst, -⟩ := (failsFirst_cons_of_some hd).1 h
  by_contra hk
  rw [if_pos (by omega)] at hfirst
  obtain ⟨f, hf, -⟩ := hfirst
  cases hf

theorem of_error {f : MessageFailure} (h : FailsFirst k (d :: l))
    (hd : d.reply = some (.error f)) :
    f.isTransient = true ∧ ∃ m, k = m + 1 ∧ FailsFirst m l := by
  obtain ⟨hfirst, hrest⟩ := (failsFirst_cons_of_some hd).1 h
  cases k with
  | zero => cases hfirst
  | succ m =>
    obtain ⟨g, hg, htransient⟩ := hfirst
    cases hg
    exact ⟨htransient, m, rfl, hrest⟩

/-- What is true of all attempts is true of the first ones. -/
theorem of_append (h : FailsFirst k (l ++ l')) : FailsFirst k l := by
  intro i r hr
  refine h i r ?_
  unfold replies at hr ⊢
  obtain ⟨hi, -⟩ := List.getElem?_eq_some_iff.1 hr
  rw [List.filterMap_append, List.getElem?_append_left hi, hr]

end FailsFirst

end Deeds

namespace Flow

variable {α : Type} {rank : World.Rank} {w : World}

/-- **A run by itself delivers what its attempts that succeed deliver**, and hands over its notices;
no other message comes to those sent or under way. -/
theorem delivers_run (rank : World.Rank) (x : Flow α) (w : World) :
    World.Delivers (Deeds.delivered (x.trail rank w)) (Deeds.noted (x.trail rank w)) w
      (x.run rank w).2 := by
  induction x generalizing w with
  | done a => exact .of_mail (World.mail_of_same rfl rfl)
  | act a next ih => exact (w.delivers_perform a).trans (ih _ _)
  | wait wt limit next ih => exact .zero_trans (w.aside_await rank wt limit) (ih _ _)

/-- A flow that begins with an attempt to send. -/
theorem does_send {x : Envelope} {next : Except MessageFailure Unit → Flow α}
    {p : List Deed → α → World → Prop}
    (hok : ∀ v, w.send x = (.ok (), v) →
      (next (.ok ())).Does rank v fun l => p (⟨w, .send x, v⟩ :: l))
    (herr : ∀ f v, w.send x = (.error f, v) →
      (next (.error f)).Does rank v fun l => p (⟨w, .send x, v⟩ :: l)) :
    (act (.send x) next).Does rank w p := by
  obtain ⟨r, v, h⟩ : ∃ r v, w.send x = (r, v) := ⟨_, _, rfl⟩
  have hperform : w.perform (.send x) = (r, v) := h
  refine does_act ?_
  rw [hperform]
  cases r with
  | ok a => exact hok v h
  | error f => exact herr f v h

end Flow

/-! ### Where no notice is under way -/

/-- Whether an action hands over a notice. -/
def Action.isNote : Action → Bool
  | .note _ => true
  | _ => false

namespace World

variable {w : World}

/-- Nothing but attempts to send and notices handed over changes the broker or the notices. -/
theorem perform_apart {a : Action} (hsend : a.isSend = false) (hnote : a.isNote = false)
    (w : World) : (w.perform a).2.broker = w.broker ∧ (w.perform a).2.notices = w.notices ∧
      (w.perform a).2.topic = w.topic := by
  cases a with
  | send e => cases hsend
  | note e => cases hnote
  | nextNumber =>
    rcases w.nextNumber_cases with ⟨f, heq⟩ | heq <;> rw [heq] <;> exact ⟨rfl, rfl, rfl⟩
  | save o =>
    rcases w.save_cases o with ⟨f, heq⟩ | heq <;> rw [heq] <;> exact ⟨rfl, rfl, rfl⟩
  | take item q =>
    rcases w.take_cases item q with ⟨f, heq⟩ | ⟨s, -, heq⟩ <;> rw [heq] <;> exact ⟨rfl, rfl, rfl⟩
  | add item q =>
    obtain ⟨counts, heq⟩ := w.add_eq item q
    rw [heq]
    exact ⟨rfl, rfl, rfl⟩
  | _ => exact ⟨rfl, rfl, rfl⟩

/-- A broker that is up fails as often as it was told to. -/
theorem send_failing (w : World) (e : Envelope) (hup : w.broker.isUp = true) :
    (if 0 < w.broker.failing then FailsForNow (w.send e).1 else (w.send e).1 = .ok ()) ∧
      (w.send e).2.broker.isUp = true ∧ (w.send e).2.broker.failing = w.broker.failing - 1 := by
  unfold send Broker.send Broker.attempt
  cases hf : w.broker.failing with
  | zero => simp [hup, hf, Broker.deliver]
  | succ n => simp [hup, FailsForNow, MessageFailure.isTransient]

end World

/-- **Where no notice is under way, the first attempts fail**, as many as the broker was told to. -/
theorem Flow.failsFirst_of_alone {α : Type} (rank : World.Rank) {x : Flow α}
    (hx : x.Each fun a => a.isNote = false) {w : World} (hw : w.Alone)
    (hup : w.broker.isUp = true) : Deeds.FailsFirst w.broker.failing (x.trail rank w) := by
  induction x generalizing w with
  | done a => intro i r hr; cases hr
  | act a next ih =>
    obtain ⟨ha, hnext⟩ := hx
    by_cases hsend : a.isSend = true
    · cases a with
      | send e =>
        obtain ⟨hreply, hup', hfailing⟩ := w.send_failing e hup
        refine (Deeds.failsFirst_cons_of_some rfl).2 ⟨hreply, ?_⟩
        have hrest := ih (w.send e).1 (hnext _) (w := (w.send e).2) ⟨hw.ready, hw.asleep⟩ hup'
        rwa [hfailing] at hrest
      | _ => cases hsend
    · have hsend : a.isSend = false := Bool.eq_false_iff.2 hsend
      obtain ⟨hbroker, hnotices, -⟩ := World.perform_apart hsend ha w
      have hnone : (Deed.mk w a (w.perform a).2).reply = none := by
        cases a <;> first | rfl | cases hsend
      refine (Deeds.failsFirst_cons_of_none hnone).2 ?_
      have hrest := ih (w.perform a).1 (hnext _) (w := (w.perform a).2)
        ⟨by rw [hnotices]; exact hw.ready, by rw [hnotices]; exact hw.asleep⟩
        (by rw [hbroker]; exact hup)
      rwa [hbroker] at hrest
  | wait wt limit next ih =>
    obtain ⟨tick, htick⟩ := hw.await rank wt limit
    show Deeds.FailsFirst w.broker.failing ((next _).trail rank (w.await rank wt limit).2)
    rw [htick]
    exact ih _ (hx _) (hw.reach tick) hup

/-! ### Where sending works -/

theorem World.conveys_perform {w : World} (hw : w.Sending) (a : Action) :
    World.Conveys ((Deed.mk w a (w.perform a).2).sent ++ (Deed.mk w a (w.perform a).2).noted :
      List Envelope) w (w.perform a).2 := by
  have hapart : a.isSend = false → a.isNote = false → Conveys 0 w (w.perform a).2 := by
    intro hsend hnote
    obtain ⟨hbroker, hnotices, htopic⟩ := perform_apart hsend hnote w
    exact .of_same htopic hbroker (by unfold underWay; rw [hnotices])
  cases a with
  | send e =>
    show Conveys ([e] : List Envelope) w (w.send e).2
    rw [send_of_sending hw]
    exact ⟨rfl, [e], rfl, add_comm _ _⟩
  | note e =>
    refine ⟨rfl, [], rfl, ?_⟩
    show 0 + (messages (w.notices.ready ++ [_]) + messages (w.notices.asleep.map (·.2))) =
      messages w.notices.ready + messages (w.notices.asleep.map (·.2)) + ([e] : List Envelope)
    unfold messages
    rw [List.map_append, ← Multiset.coe_add, List.map_cons, List.map_nil]
    abel
  | _ => exact hapart rfl rfl

/-- **Where sending works, all that a run says is delivered** or goes on to be under way. -/
theorem Flow.conveys_run {α : Type} (rank : World.Rank) (x : Flow α) {w : World} (hw : w.Sending) :
    World.Conveys (Deeds.said (x.trail rank w)) w (x.run rank w).2 := by
  induction x generalizing w with
  | done a => exact .refl w
  | act a next ih =>
    show World.Conveys (Deeds.said (_ :: _) : List Envelope) _ _
    rw [Deeds.said_cons]
    have hperform := World.conveys_perform hw a
    exact hperform.trans (ih _ (hperform.sending hw))
  | wait wt limit next ih =>
    have hawait := World.Wakes.await hw rank wt limit
    exact hawait.toConveys.zero_trans (ih _ (hawait.sending hw))

end Takeaway
