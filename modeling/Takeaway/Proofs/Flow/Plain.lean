import Takeaway.Proofs.Flow.Ends
import Takeaway.Proofs.Message.Codec
import Takeaway.Proofs.World.Steady

/-!
Plain flows: all of their actions are plain, and they end as promised, whatever they are answered.
Main statements: a plain flow keeps the world steady; calls of the store and sending are plain, and
fail only when something outside does not answer.
-/

namespace Takeaway

/-- A fault of something outside. -/
def Fault.IsOutside (f : Fault) : Prop := f.category = .infrastructure

/-- What may be expected of an answer: an attempt to send fails for the moment only. -/
def Action.Expects : (a : Action) → a.Answer → Prop
  | .send _, r => ∀ f, r = .error f → f.isTransient = true
  | _, _ => True

theorem Broker.isTransient_of_attempt {b b' : Broker} {f : MessageFailure}
    (h : b.attempt = (.error f, b')) : f.isTransient = true := by
  unfold attempt at h
  split at h
  · cases h
    rfl
  · split at h <;> cases h
    rfl

theorem World.expects_perform (w : World) (a : Action) : a.Expects (w.perform a).1 := by
  cases a with
  | send x =>
    show ∀ f, (w.send x).1 = .error f → f.isTransient = true
    intro f hf
    rcases hat : w.broker.attempt with ⟨g | ⟨⟩, b⟩ <;> simp only [send, Broker.send, hat] at hf <;>
      cases hf
    exact Broker.isTransient_of_attempt hat
  | _ => trivial

namespace Flow

variable {α β : Type}

/-- A flow all of whose actions are plain, and at whose end a statement holds, whatever it is
answered that may be expected. -/
def Plain : Flow α → (α → Prop) → Prop
  | done a, p => p a
  | act a next, p => a.IsPlain ∧ ∀ r, a.Expects r → (next r).Plain p
  | wait _ _ next, p => ∀ b, (next b).Plain p

variable {p : α → Prop} {q : β → Prop}

theorem plain_ask {a : Action} {p : a.Answer → Prop} (ha : a.IsPlain)
    (h : ∀ r, a.Expects r → p r) : (ask a).Plain p := ⟨ha, h⟩

theorem Plain.imp {x : Flow α} {p' : α → Prop} (h : x.Plain p) (hp : ∀ a, p a → p' a) :
    x.Plain p' := by
  induction x with
  | done a => exact hp a h
  | act a next ih => exact ⟨h.1, fun r hr => ih r (h.2 r hr)⟩
  | wait wt limit next ih => exact fun b => ih b (h b)

theorem Plain.bind {x : Flow α} {f : α → Flow β} (hx : x.Plain p)
    (hf : ∀ a, p a → (f a).Plain q) : (x.bind f).Plain q := by
  induction x with
  | done a => exact hf a hx
  | act a next ih => exact ⟨hx.1, fun r hr => ih r (hx.2 r hr)⟩
  | wait wt limit next ih => exact fun b => ih b (hx b)

/-- A flow that is given up at some tick is plain as far as it got. -/
theorem Plain.before {x : Flow α} (hx : x.Plain p) (tick : Nat) :
    (x.before tick).Plain fun r => ∀ a, r = some a → p a := by
  induction x with
  | done a =>
    rintro _ ⟨⟩
    exact hx
  | act a next ih => exact ⟨hx.1, fun r hr => ih r (hx.2 r hr)⟩
  | wait wt limit next ih =>
    cases limit with
    | none =>
      intro b
      cases b
      · rintro _ ⟨⟩
      · exact ih true (hx true)
    | some limit =>
      intro b
      cases b
      · by_cases hl : limit ≤ tick
        · simpa [hl] using ih false (hx false)
        · simp [hl, Plain]
      · exact ih true (hx true)

/-- **A plain flow keeps the world steady**, and ends as it promises. -/
theorem Plain.ends {rank : World.Rank} {x : Flow α} (hx : x.Plain p) (w : World) :
    x.Ends rank w fun a w' => p a ∧ w.Steady w' := by
  induction x generalizing w with
  | done a => exact ⟨hx, World.Steady.refl w⟩
  | act a next ih =>
    obtain ⟨hb, h⟩ := ih _ (hx.2 _ (w.expects_perform a)) (w.perform a).2
    exact ⟨hb, (w.steady_perform hx.1).trans h⟩
  | wait wt limit next ih =>
    obtain ⟨hb, h⟩ := ih _ (hx _) (w.await rank wt limit).2
    exact ⟨hb, (w.steady_await rank wt limit).trans h⟩

end Flow

/-! ### Plain work -/

section Work

variable {ε α β : Type} {p : ε → Prop}

/-- Work all of whose actions are plain, and of whose failures a statement holds. -/
def PlainWork (x : ExceptT ε Flow α) (p : ε → Prop) : Prop :=
  Flow.Plain x.run fun r => ∀ f, r = .error f → p f

theorem plainWork_pure (a : α) : PlainWork (pure a : ExceptT ε Flow α) p := by
  rintro _ ⟨⟩

theorem plainWork_throw {f : ε} (h : p f) : PlainWork (throw f : ExceptT ε Flow α) p := by
  rintro _ ⟨⟩
  exact h

theorem PlainWork.imp {x : ExceptT ε Flow α} {p' : ε → Prop} (h : PlainWork x p)
    (hp : ∀ f, p f → p' f) : PlainWork x p' :=
  Flow.Plain.imp h fun _ hr f hf => hp f (hr f hf)

theorem PlainWork.bind {x : ExceptT ε Flow α} {f : α → ExceptT ε Flow β} (hx : PlainWork x p)
    (hf : ∀ a, PlainWork (f a) p) : PlainWork (x >>= f) p := by
  refine Flow.Plain.bind hx fun r hr => ?_
  cases r with
  | ok a => exact hf a
  | error e =>
    rintro _ ⟨⟩
    exact hr e rfl

theorem plainWork_lift {x : Flow α} (hx : x.Plain fun _ => True) :
    PlainWork (ExceptT.lift x : ExceptT ε Flow α) p :=
  Flow.Plain.bind hx fun _ _ => by rintro _ ⟨⟩

theorem plainWork_ask {a : Action} (ha : a.IsPlain) :
    PlainWork (ExceptT.lift (Flow.ask a) : ExceptT ε Flow a.Answer) p :=
  plainWork_lift (Flow.plain_ask ha fun _ _ => trivial)

theorem plainWork_mapError {ε' : Type} {x : Flow (Except ε' α)} {g : ε' → ε} {p' : ε' → Prop}
    (hx : PlainWork (ExceptT.mk x) p') (hg : ∀ f, p' f → p (g f)) :
    PlainWork (ExceptT.mk do return (← x).mapError g : ExceptT ε Flow α) p := by
  refine Flow.Plain.bind hx fun r hr => ?_
  cases r with
  | ok a => rintro _ ⟨⟩
  | error f =>
    rintro _ ⟨⟩
    exact hg f (hr f rfl)

theorem PlainWork.within {x : Work α} (hx : PlainWork x Fault.IsOutside) (d : Deadline) :
    PlainWork (Work.within d x) Fault.IsOutside := by
  refine Flow.Plain.bind (Flow.Plain.before hx d.tick) fun r hr => ?_
  cases r with
  | none =>
    rintro _ ⟨⟩
    rfl
  | some r => exact hr r rfl

theorem PlainWork.ends {rank : World.Rank} {x : ExceptT ε Flow α} (hx : PlainWork x p)
    (w : World) :
    WorkEnds rank x w fun r w' => (∀ f, r = .error f → p f) ∧ w.Steady w' := Flow.Plain.ends hx w

end Work

/-! ### Calls of the store -/

theorem plain_lagOf (c : Store.Call) : (lagOf c).Plain fun _ => True :=
  Flow.Plain.bind (Flow.plain_ask trivial fun _ _ => trivial) fun _ _ _ => trivial

/-- A call of the store: it waits as long as it has to, and then does one thing. -/
theorem plainWork_call {α : Type} {x : Flow (Except Outage α)} (c : Store.Call)
    (hx : x.Plain fun _ => True) :
    PlainWork (ExceptT.mk do lagOf c; x) fun _ => True :=
  Flow.Plain.bind (plain_lagOf c) fun _ _ => hx.imp fun _ _ _ _ => trivial

section Store

variable {α : Type} {x : Flow (Except Outage α)} (hx : PlainWork (ExceptT.mk x) fun _ => True)
include hx

theorem plainWork_ofStore : PlainWork (Work.ofStore x) Fault.IsOutside :=
  plainWork_mapError hx fun _ _ => rfl

theorem plainWork_within (d : Deadline) :
    PlainWork (Work.within d (Work.ofStore x)) Fault.IsOutside := (plainWork_ofStore hx).within d

end Store

theorem plain_nextNumber : PlainWork (ExceptT.mk nextNumber) fun _ => True :=
  plainWork_call .next (Flow.plain_ask trivial fun _ _ => trivial)

theorem plain_fetchOrder (n : OrderNumber) :
    PlainWork (ExceptT.mk (fetchOrder n)) fun _ => True :=
  plainWork_call .get (Flow.plain_ask (a := .fetch n) trivial fun _ _ => trivial)

theorem plain_searchOrders (f : OrderFilter) :
    PlainWork (ExceptT.mk (searchOrders f)) fun _ => True :=
  plainWork_call .find (Flow.plain_ask (a := .search f) trivial fun _ _ => trivial)

theorem plain_saveOrder (o : Order) : PlainWork (ExceptT.mk (saveOrder o)) fun _ => True :=
  plainWork_call .upsert (Flow.plain_ask (a := .save o) trivial fun _ _ => trivial)

/-! ### Sending -/

theorem MessageFailure.isMalformed_exhausted {f : MessageFailure} (hf : f.isTransient = true)
    (i : Nat) : (f.exhausted i).isMalformed = false := by
  unfold exhausted
  rw [if_pos hf]
  rfl

theorem plain_publish (p : RetryPolicy) (x : Envelope) :
    PlainWork (ExceptT.mk (publish p x)) fun f => f.isMalformed = false := by
  show (publish p x).Plain _
  unfold publish
  generalize p.limit - 1 = left
  generalize 1 = i
  have hsend : (Flow.ask (.send x)).Plain fun r => ∀ f, r = .error f → f.isTransient = true :=
    Flow.plain_ask trivial fun _ hr => hr
  induction left generalizing i with
  | zero =>
    refine Flow.Plain.bind hsend fun r hr => ?_
    cases r with
    | ok u => rintro _ ⟨⟩
    | error f =>
      rintro _ ⟨⟩
      exact MessageFailure.isMalformed_exhausted (hr f rfl) i
  | succ left ih =>
    refine Flow.Plain.bind hsend fun r hr => ?_
    cases r with
    | ok u => rintro _ ⟨⟩
    | error f =>
      dsimp only
      rw [if_pos (hr f rfl)]
      refine Flow.Plain.bind (p := fun _ => True) ?_ fun _ _ => ih _
      exact Flow.Plain.bind (Flow.plain_ask (by simp [Action.IsPlain]) fun _ _ => trivial)
        fun _ _ _ => trivial

/-- **Sending fails only when something outside does not answer.** -/
theorem plainWork_publish (p : RetryPolicy) (x : Envelope) :
    PlainWork (Work.publish p x) Fault.IsOutside :=
  plainWork_mapError (plain_publish p x) fun f hf => by
    unfold Fault.ofMessage
    rw [if_neg (by simp [hf])]
    rfl

/-- Telling of something at the present time. -/
theorem plainWork_tell {α : Type} (p : RetryPolicy) (tell : Timestamp → Envelope) (a : α) :
    PlainWork (do
      Work.publish p (tell (← Flow.ask .clock))
      return a) Fault.IsOutside :=
  PlainWork.bind (plainWork_ask trivial) fun _ =>
    PlainWork.bind (plainWork_publish _ _) fun _ => plainWork_pure _

theorem plain_notify {x : Envelope} (hx : x.IsNotice) : (notify x).Plain fun _ => True :=
  fun _ => Flow.plain_ask hx fun _ _ => trivial

theorem Envelope.isNotice_itemAdded (i : Item) (time : Timestamp) : (itemAdded i time).IsNotice :=
  .inl (event_itemAdded i time)

theorem Envelope.isNotice_statusUpdated (n : OrderNumber) (s : Status) (time : Timestamp) :
    (statusUpdated n s time).IsNotice := .inr (event_statusUpdated s time n)

theorem plain_addUnits (item : String) (q : Quantity) :
    (addUnits item q).Plain fun _ => True := by
  unfold addUnits
  refine Flow.Plain.bind (Flow.plain_ask trivial fun _ _ => trivial) fun b _ => ?_
  cases b
  · trivial
  · exact Flow.Plain.bind (Flow.plain_ask trivial fun _ _ => trivial) fun time _ =>
      plain_notify (Envelope.isNotice_itemAdded _ time)

theorem plainWork_request (p : RetryPolicy) (n : OrderNumber) (i : Item) :
    PlainWork (Kitchen.request p n i) Fault.IsOutside := by
  refine PlainWork.bind (plainWork_ask trivial) fun key => ?_
  refine PlainWork.bind (plainWork_ask trivial) fun time => ?_
  refine PlainWork.bind (plainWork_publish _ _) fun _ => ?_
  exact PlainWork.bind (plainWork_ask (by simp [Action.IsPlain])) fun _ => plainWork_pure _

end Takeaway
