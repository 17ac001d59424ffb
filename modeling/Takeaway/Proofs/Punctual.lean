import Takeaway.Proofs.Flow.Delivered
import Takeaway.Proofs.Coverage.Attempts

/-!
Requests to the kitchen under a deadline. Main statement: the number of attempts and the deadline
are two bounds, and whichever is met first decides; a request that fails has sent nothing, and
nothing of it is left that could be sent later.
-/

namespace Takeaway

variable {rank : World.Rank} {w w' v : World} {l l' : List Deed} {x : Envelope}

/-! ### Attempts at one message -/

/-- That many attempts were made to send a message and nothing else was said or written; these
messages were delivered, and in the end it was that late. -/
structure Attempted (x : Envelope) (m : Nat) (sent : List Envelope) (tick : Nat) (l : List Deed)
    (w' : World) : Prop where
  deeds : Deeds.Tally [] [] (List.replicate m x) l
  delivered : Deeds.delivered l = sent
  clock : w'.now = tick

namespace Attempted

variable {m tick : Nat} {sent : List Envelope} {f : MessageFailure}

/-- An attempt that is the last one. -/
theorem last (h : w.send x = (.ok (), v)) :
    Attempted x 1 [x] w.now [⟨w, .send x, v⟩] v where
  deeds := ⟨rfl, rfl, rfl⟩
  delivered := by
    show (if (w.send x).1 = .ok () then [x] else []) ++ [] = [x]
    rw [if_pos (by rw [h]), List.append_nil]
  clock := by
    have hnow := (w.send_same x).1
    rwa [h] at hnow

theorem last_failed (h : w.send x = (.error f, v)) :
    Attempted x 1 [] w.now [⟨w, .send x, v⟩] v where
  deeds := ⟨rfl, rfl, rfl⟩
  delivered := by
    show (if (w.send x).1 = .ok () then [x] else []) ++ [] = []
    rw [if_neg (by rw [h]; rintro ⟨⟩), List.append_nil]
  clock := by
    have hnow := (w.send_same x).1
    rwa [h] at hnow

theorem append (h : Attempted x 1 [] tick l v) {t : Nat} (h' : Attempted x m sent t l' w') :
    Attempted x (m + 1) sent t (l ++ l') w' where
  deeds := by
    rw [Nat.add_comm, List.replicate_add]
    exact h.deeds.append h'.deeds
  delivered := by rw [Deeds.delivered_append, h.delivered, h'.delivered, List.nil_append]
  clock := h'.clock

/-- Deeds that say nothing before the attempts. -/
theorem still_append (h : Deeds.Still l) (h' : Attempted x m sent tick l' w') :
    Attempted x m sent tick (l ++ l') w' where
  deeds := h.still_append h'.deeds
  delivered := by rw [Deeds.delivered_append, h.delivered_eq_nil, h'.delivered, List.nil_append]
  clock := h'.clock

/-- Deeds that say nothing and take no time after the attempts. -/
theorem append_still (h : Attempted x m sent tick l w') (h' : Deeds.Still l')
    (hnow : v.now = w'.now) : Attempted x m sent tick (l ++ l') v where
  deeds := h.deeds.append_still h'
  delivered := by rw [Deeds.delivered_append, h.delivered, h'.delivered_eq_nil, List.append_nil]
  clock := hnow.trans h.clock

/-- An attempt that fails and is counted as one to be repeated. -/
theorem retried (h : w.send x = (.error f, v)) :
    Attempted x 1 [] w.now
      [⟨w, .send x, v⟩, ⟨v, .count .sendRetries 1, v.count .sendRetries 1⟩]
      (v.count .sendRetries 1) :=
  (last_failed h).append_still ⟨rfl, rfl, rfl⟩ rfl

end Attempted

/-- Of the attempts that fail first, one that is to be repeated is the first. -/
theorem Deeds.FailsFirst.of_retried {k : Nat} {f : MessageFailure}
    (hk : Deeds.FailsFirst k (⟨w, .send x, v⟩ ::
      ⟨v, .count .sendRetries 1, v.count .sendRetries 1⟩ :: l))
    (h : w.send x = (.error f, v)) : ∃ m, k = m + 1 ∧ Deeds.FailsFirst m l := by
  obtain ⟨-, m, hm, hl⟩ := hk.of_error (Deed.reply_send h)
  exact ⟨m, hm, (Deeds.failsFirst_cons_of_none rfl).1 hl⟩

/-- What attempts come to of which the first `k` fail: the `i`-th is made, and `left` more may be, a
delay apart, until a tick. -/
structure Bounded (x : Envelope) (delay tick left i k : Nat) (w : World) (l : List Deed)
    (r : Option (Except MessageFailure Unit)) (w' : World) : Prop where
  /-- The first attempt that does not fail is made in time. -/
  succeeds : k ≤ left → (k = 0 ∨ w.now + k * delay ≤ tick) →
    r = some (.ok ()) ∧ Attempted x (k + 1) [x] (w.now + k * delay) l w'
  /-- All attempts fail, the last of them in time. -/
  exhausted : left < k → (left = 0 ∨ w.now + left * delay ≤ tick) →
    (∃ reason, r = some (.error (.unavailable (i + left) reason))) ∧
      Attempted x (left + 1) [] (w.now + left * delay) l w'
  /-- The attempt that would decide is not made in time. -/
  late : 1 ≤ min k left → tick < w.now + min k left * delay →
    r = none ∧ ∃ m, Attempted x m [] (max w.now tick) l w'

namespace Bounded

variable {delay tick left i k : Nat} {r : Option (Except MessageFailure Unit)}
  {f : MessageFailure}

/-- An attempt that succeeds. -/
theorem sent (h : w.send x = (.ok (), v)) :
    Bounded x delay tick left i 0 w [⟨w, .send x, v⟩] (some (.ok ())) v where
  succeeds _ _ := ⟨rfl, by simpa using Attempted.last h⟩
  exhausted hlt _ := absurd hlt (Nat.not_lt_zero _)
  late hpos _ := absurd hpos (by omega)

/-- An attempt that fails, after which there is no other. -/
theorem last_failed (h : w.send x = (.error f, v)) (hf : f.isTransient = true) :
    Bounded x delay tick 0 i (k + 1) w [⟨w, .send x, v⟩] (some (.error (f.exhausted i))) v where
  succeeds hle _ := absurd hle (by omega)
  exhausted _ _ := by
    have hexhausted : f.exhausted i = .unavailable i f.message := if_pos hf
    rw [hexhausted]
    exact ⟨⟨f.message, rfl⟩, by simpa using Attempted.last_failed h⟩
  late hpos _ := absurd hpos (by omega)

/-- An attempt that fails so late that the pause after it is given up. -/
theorem given_up (h : Attempted x 1 [] w.now l v) (htick : tick < w.now + delay)
    (hnow : w'.now = max w.now tick) :
    Bounded x delay tick (left + 1) i (k + 1) w l none w' where
  succeeds _ hin := by
    rw [Nat.succ_mul] at hin
    omega
  exhausted _ hin := by
    rw [Nat.succ_mul] at hin
    omega
  late _ _ := ⟨rfl, 1, h.deeds, h.delivered, hnow⟩

/-- An attempt that fails in time for the next one. -/
theorem again (h : Attempted x 1 [] w.now l v) (htick : w.now + delay ≤ tick) {u : World}
    (hnow : u.now = w.now + delay) (hrest : Bounded x delay tick left (i + 1) k u l' r w') :
    Bounded x delay tick (left + 1) i (k + 1) w (l ++ l') r w' := by
  have hclock : ∀ m, u.now + m * delay = w.now + (m + 1) * delay := fun m => by
    rw [hnow, Nat.succ_mul]
    omega
  refine ⟨fun hle hin => ?_, fun hlt hin => ?_, fun hpos hlate => ?_⟩
  · rw [← hclock] at hin ⊢
    obtain ⟨hr, hattempted⟩ := hrest.succeeds (by omega) (.inr (by omega))
    exact ⟨hr, h.append hattempted⟩
  · rw [← hclock] at hin ⊢
    obtain ⟨hr, hattempted⟩ := hrest.exhausted (by omega) (.inr (by omega))
    rw [Nat.add_right_comm] at hr
    exact ⟨hr, h.append hattempted⟩
  · rw [Nat.add_min_add_right, ← hclock] at hlate
    have hmin : 1 ≤ min k left := by
      by_contra hzero
      rw [show min k left = 0 by omega, Nat.zero_mul] at hlate
      omega
    obtain ⟨hr, m, hattempted⟩ := hrest.late hmin hlate
    have hmax : max u.now tick = max w.now tick := by omega
    rw [hmax] at hattempted
    exact ⟨hr, m + 1, h.append hattempted⟩

theorem imp {u : World} (h : Bounded x delay tick left i k w l r v) (hnow : u.now = w.now)
    (hl : ∀ m sent t, Attempted x m sent t l v → Attempted x m sent t l' w') :
    Bounded x delay tick left i k u l' r w' := by
  refine ⟨fun hle hin => ?_, fun hlt hin => ?_, fun hpos hlate => ?_⟩
  · rw [hnow] at hin ⊢
    exact (h.succeeds hle hin).imp_right (hl _ _ _)
  · rw [hnow] at hin ⊢
    exact (h.exhausted hlt hin).imp_right (hl _ _ _)
  · rw [hnow] at hlate ⊢
    exact (h.late hpos hlate).imp_right fun ⟨m, hm⟩ => ⟨m, hl _ _ _ hm⟩

end Bounded

/-- **Sending until a tick is bounded twice**, by the number of attempts and by the tick. -/
theorem does_publish_before (p : RetryPolicy) (hdelay : p.delay.ticks ≠ 0) (x : Envelope)
    (tick : Nat) :
    ((publish p x).before tick).Does rank w fun l r w' => ∀ k, Deeds.FailsFirst k l →
      Bounded x p.delay.ticks tick (p.limit - 1) 1 k w l r w' := by
  unfold publish
  generalize p.limit - 1 = left
  generalize 1 = i
  induction left generalizing i w with
  | zero =>
    refine Flow.does_send (fun v h => Flow.does_done fun k hk => ?_)
      fun f v h => Flow.does_done fun k hk => ?_
    · rw [hk.of_ok (Deed.reply_send h)]
      exact .sent h
    · obtain ⟨hf, m, rfl, -⟩ := hk.of_error (Deed.reply_send h)
      exact .last_failed h hf
  | succ left ih =>
    refine Flow.does_send (fun v h => Flow.does_done fun k hk => ?_) fun f v h => ?_
    · rw [hk.of_ok (Deed.reply_send h)]
      exact .sent h
    · have hf : f.isTransient = true := w.expects_perform (.send x) f (congrArg Prod.fst h)
      unfold Flow.bind
      dsimp only
      rw [if_pos hf]
      -- the failure is counted, and then there is a pause, in which the time may run out
      refine Flow.does_act (a := .count .sendRetries 1) (Flow.does_wait ?_)
      have hfailed := Attempted.retried h
      have hnow : (v.count .sendRetries 1).now = w.now := hfailed.clock
      have hrest := fun {k l} hk => Deeds.FailsFirst.of_retried (l := l) (k := k) hk h
      have hcount : (v.perform (.count .sendRetries 1)).2 = v.count .sendRetries 1 := rfl
      rw [hcount]
      generalize v.count .sendRetries 1 = u at hfailed hnow hrest ⊢
      by_cases htick : w.now + p.delay.ticks ≤ tick
      · obtain ⟨hb, hclock⟩ := World.await_pause_in_time (w := u) rank hdelay (hnow ▸ htick)
        rw [hb]
        refine (ih (i + 1)).imp fun l r w' hl k hk => ?_
        obtain ⟨m, rfl, hm⟩ := hrest hk
        exact .again hfailed htick (hclock.trans (congrArg (· + _) hnow)) (hl m hm)
      · have hlate : tick < w.now + p.delay.ticks := Nat.lt_of_not_le htick
        obtain ⟨hb, hclock⟩ := World.await_pause_late (w := u) rank hdelay (hnow ▸ hlate)
        rw [hb]
        refine Flow.does_done fun k hk => ?_
        obtain ⟨m, rfl, -⟩ := hrest hk
        exact .given_up hfailed hlate (hclock.trans (congrArg (max · tick) hnow))

/-! ### Requests -/

namespace Kitchen

/-- The message of the next request. -/
def message (n : OrderNumber) (i : Item) (w : World) : Envelope :=
  .itemRequested n i (RequestKey.ofSerial w.keys) w.time

/-- A request by a deadline comes to this, after so many attempts and at this tick, and these
messages are sent. -/
structure CameTo (p : RetryPolicy) (n : OrderNumber) (i : Item) (d : Deadline) (rank : World.Rank)
    (w : World) (r : Except Fault RequestKey) (m tick : Nat) (sent : List Envelope) : Prop where
  result : ((Work.within d (request p n i)).run.run rank w).1 = r
  attempted : Attempted (message n i w) m sent tick
    ((Work.within d (request p n i)).run.trail rank w)
    ((Work.within d (request p n i)).run.run rank w).2
  /-- No other message is sent, now or later. -/
  delivers : World.Delivers sent 0 w ((Work.within d (request p n i)).run.run rank w).2

/-- A request is to send its message until the deadline, and that is all. -/
theorem does_request_within (p : RetryPolicy) (hdelay : p.delay.ticks ≠ 0) (n : OrderNumber)
    (i : Item) (d : Deadline) :
    WorkDoes rank (Work.within d (request p n i)) w fun l r w' => ∀ k, Deeds.FailsFirst k l →
      ∃ e, r = unlessFault (sendFault d e) (RequestKey.ofSerial w.keys) ∧
        Bounded (message n i w) p.delay.ticks d.tick (p.limit - 1) 1 k w l e w' := by
  refine Flow.does_act (a := .freshKey) ?_
  refine Flow.does_act (a := .clock) ?_
  show Flow.Does rank (Flow.bind _ (Flow.before d.tick (Flow.bind _ (Flow.bind _
    (publish p (message n i w)))))) (w.perform .freshKey).2 _
  have hnow : w.now = (w.perform .freshKey).2.now := rfl
  have hbefore : Deeds.Still [⟨w, .freshKey, (w.perform .freshKey).2⟩,
      ⟨(w.perform .freshKey).2, .clock, (w.perform .freshKey).2⟩] := ⟨rfl, rfl, rfl⟩
  rw [Flow.before_bind, Flow.before_bind, Flow.bind_assoc, Flow.bind_assoc]
  refine Flow.Does.bind (does_publish_before p hdelay (message n i w) d.tick) ?_
  intro l e v h
  -- what is done first does not count as an attempt
  have hpublish : ∀ k l', Deeds.FailsFirst k (⟨w, .freshKey, (w.perform .freshKey).2⟩ ::
      ⟨(w.perform .freshKey).2, .clock, (w.perform .freshKey).2⟩ :: (l ++ l')) →
        Bounded (message n i w) p.delay.ticks d.tick (p.limit - 1) 1 k
          (w.perform .freshKey).2 l e v := fun k l' hk => by
    have hcons := (Deeds.failsFirst_cons_of_none rfl).1 hk
    exact h k ((Deeds.failsFirst_cons_of_none rfl).1 hcons).of_append
  cases e with
  | none =>
    refine Flow.does_done fun k hk => ⟨none, rfl, (hpublish k [] hk).imp hnow fun m sent t hl => ?_⟩
    rw [List.append_nil]
    exact hl.still_append hbefore
  | some e =>
    cases e with
    | error f =>
      refine Flow.does_done fun k hk =>
        ⟨some (.error f), rfl, (hpublish k [] hk).imp hnow fun m sent t hl => ?_⟩
      rw [List.append_nil]
      exact hl.still_append hbefore
    | ok a =>
      refine Flow.does_act (a := .count .kitchenRequests 1) (Flow.does_done fun k hk =>
        ⟨some (.ok ()), rfl, (hpublish k _ hk).imp hnow fun m sent t hl => ?_⟩)
      have hcount : Deeds.Still [⟨v, .count .kitchenRequests 1, v.count .kitchenRequests 1⟩] :=
        ⟨rfl, rfl, rfl⟩
      exact (hl.append_still (v := v.count .kitchenRequests 1) hcount rfl).still_append hbefore

theorem cameTo_of_attempted {p : RetryPolicy} {n : OrderNumber} {i : Item} {d : Deadline}
    {r : Except Fault RequestKey} {m tick : Nat} {sent : List Envelope}
    (hr : ((Work.within d (request p n i)).run.run rank w).1 = r)
    (h : Attempted (message n i w) m sent tick ((Work.within d (request p n i)).run.trail rank w)
      ((Work.within d (request p n i)).run.run rank w).2) :
    CameTo p n i d rank w r m tick sent := by
  refine ⟨hr, h, ?_⟩
  have hdelivers := Flow.delivers_run rank (Work.within d (request p n i)).run w
  rwa [h.delivered, h.deeds.noted] at hdelivers

/-- **A request under a deadline either sends once or not at all.** The first `k` attempts fail: if
the next one is made before the attempts are used up and before the deadline, it succeeds; if they
are used up before the deadline, the last failure is reported; and else the request is late. -/
theorem request_bounded (p : RetryPolicy) {delay : Nat} (hp : p.delay = Span.millis delay)
    (hdelay : 0 < delay) (n : OrderNumber) (i : Item) (d : Deadline) (rank : World.Rank) (w : World)
    {k : Nat} (hk : Deeds.FailsFirst k ((Work.within d (request p n i)).run.trail rank w)) :
    (k < p.limit → (k = 0 ∨ w.now + k * delay ≤ d.tick) →
      CameTo p n i d rank w (.ok (RequestKey.ofSerial w.keys)) (k + 1) (w.now + k * delay)
        [message n i w]) ∧
    (p.limit ≤ k → (p.limit = 1 ∨ w.now + (p.limit - 1) * delay ≤ d.tick) → ∃ reason,
      CameTo p n i d rank w
        (.error (.downstream (MessageFailure.unavailable p.limit reason).message)) p.limit
        (w.now + (p.limit - 1) * delay) []) ∧
    (1 ≤ min k (p.limit - 1) → d.tick < w.now + min k (p.limit - 1) * delay → ∃ m,
      CameTo p n i d rank w (.error (.late d.timeout)) m (max w.now d.tick) []) := by
  have hticks : p.delay.ticks = delay := by rw [hp, Span.ticks_millis]
  have hpos := p.limit_pos
  obtain ⟨e, hr, hbounded⟩ := does_request_within p (by omega) n i d k hk
  rw [hticks] at hbounded
  refine ⟨fun hlt hin => ?_, fun hle hin => ?_, fun hmin hlate => ?_⟩
  · obtain ⟨he, hattempted⟩ := hbounded.succeeds (by omega) hin
    subst he
    exact cameTo_of_attempted hr hattempted
  · obtain ⟨⟨reason, he⟩, hattempted⟩ := hbounded.exhausted (by omega) (hin.imp (by omega) id)
    subst he
    have hlimit : 1 + (p.limit - 1) = p.limit := by omega
    rw [hlimit] at hr
    rw [Nat.sub_add_cancel hpos] at hattempted
    exact ⟨reason, cameTo_of_attempted hr hattempted⟩
  · obtain ⟨he, m, hattempted⟩ := hbounded.late hmin hlate
    subst he
    exact ⟨m, cameTo_of_attempted hr hattempted⟩

/-- A request hands over no notice. -/
theorem each_request (p : RetryPolicy) (n : OrderNumber) (i : Item) (d : Deadline) :
    EachWork (fun a => a.isNote = false) (Work.within d (request p n i)) := by
  refine EachWork.within ?_ d
  refine EachWork.bind (eachWork_lift (Flow.each_ask rfl)) fun key => ?_
  refine EachWork.bind (eachWork_lift (Flow.each_ask rfl)) fun time => ?_
  refine EachWork.bind (eachWork_mapError _ (each_publish p rfl rfl)) fun _ => ?_
  exact EachWork.bind (eachWork_lift (Flow.each_ask rfl)) fun _ => eachWork_pure _

/-- A world in which the next two attempts to send fail. -/
def stalling : World := { broker := { failing := 2 } }

/-- A third attempt is in time by the tick 400, and late by the tick before; where there is none,
the second was the last. -/
theorem request_bounded_stalling :
    CameTo ⟨3, Span.millis 200⟩ ⟨7⟩ ⟨"Burger", .one⟩ ⟨400, Span.millis 400⟩ .first stalling
        (.ok (RequestKey.ofSerial 0)) 3 400 [message ⟨7⟩ ⟨"Burger", .one⟩ stalling] ∧
      (∃ reason, CameTo ⟨2, Span.millis 200⟩ ⟨7⟩ ⟨"Burger", .one⟩ ⟨400, Span.millis 400⟩ .first
        stalling (.error (.downstream (MessageFailure.unavailable 2 reason).message)) 2 200 []) ∧
      ∃ m, CameTo ⟨3, Span.millis 200⟩ ⟨7⟩ ⟨"Burger", .one⟩ ⟨399, Span.millis 399⟩ .first stalling
        (.error (.late (Span.millis 399))) m 399 [] := by
  have hfails : ∀ (p : RetryPolicy) (d : Deadline), Deeds.FailsFirst 2
      ((Work.within d (request p ⟨7⟩ ⟨"Burger", .one⟩)).run.trail .first stalling) := fun p d =>
    Flow.failsFirst_of_alone .first (each_request p _ _ d) (w := stalling) ⟨rfl, rfl⟩ rfl
  refine ⟨?_, ?_, ?_⟩
  · exact (request_bounded ⟨3, Span.millis 200⟩ rfl (by decide) ⟨7⟩ ⟨"Burger", .one⟩
      ⟨400, Span.millis 400⟩ .first stalling (hfails _ _)).1 (by decide) (.inr (by decide))
  · exact (request_bounded ⟨2, Span.millis 200⟩ rfl (by decide) ⟨7⟩ ⟨"Burger", .one⟩
      ⟨400, Span.millis 400⟩ .first stalling (hfails _ _)).2.1 (by decide) (.inr (by decide))
  · exact (request_bounded ⟨3, Span.millis 200⟩ rfl (by decide) ⟨7⟩ ⟨"Burger", .one⟩
      ⟨399, Span.millis 399⟩ .first stalling (hfails _ _)).2.2 (by decide) (by decide)

end Kitchen

end Takeaway
