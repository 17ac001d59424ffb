import Takeaway.Proofs.Coverage.Requests
import Takeaway.Proofs.Flow.Anyhow

/-!
How the kitchen is asked when sending turns out in any way. Main statement: of the items that it is
to be asked for, those up to the first failure are tried in their order, so that those that it was
asked for in the end are the first of them; and nothing else is done.
-/

namespace Takeaway

variable {w : World}

/-- Something, unless there was a fault. -/
def unlessFault {α : Type} (fault : Option Fault) (a : α) : Except Fault α :=
  fault.elim (.ok a) .error

/-! ### One message -/

/-- Attempts to send a message, the first of them being the `i`-th, with their answers, and what
comes of them; nothing does if there is no time for the next one. -/
inductive Tries : Nat → Replies → Option (Except MessageFailure Unit) → Prop
  | sent (i : Nat) : Tries i [.ok ()] (some (.ok ()))
  | failed (i : Nat) (g : MessageFailure) : Tries i [.error g] (some (.error (g.exhausted i)))
  | late (i : Nat) {g : MessageFailure} (hg : g.isTransient = true) : Tries i [.error g] none
  | again {i : Nat} {g : MessageFailure} {s : Replies} {e : Option (Except MessageFailure Unit)}
    (hg : g.isTransient = true) (h : Tries (i + 1) s e) : Tries i (.error g :: s) e

/-- A single attempt is enough if it succeeds. -/
theorem Tries.of_ok {i : Nat} {s : Replies} {e : Option (Except MessageFailure Unit)}
    (h : Tries i s e) (hs : ∀ r ∈ s, r = .ok ()) : s = [.ok ()] ∧ e = some (.ok ()) := by
  cases h with
  | sent => exact ⟨rfl, rfl⟩
  | failed => simp at hs
  | late => simp at hs
  | again => simp at hs

/-- Sending within a limit is a number of attempts. -/
theorem anyhow_publish (p : RetryPolicy) (x : Envelope) (tick : Nat) :
    ((publish p x).before tick).Anyhow w fun s l e w' =>
      Tries 1 s e ∧ Deeds.Tally [] [] (List.replicate s.length x) l ∧ w.Unmoved w' := by
  unfold publish
  generalize p.limit - 1 = left
  generalize 1 = i
  have hone : ∀ w v : World, Deeds.Tally [] [] (List.replicate 1 x) [⟨w, .send x, v⟩] := by
    intro w v
    constructor <;> rfl
  induction left generalizing i w with
  | zero =>
    refine Flow.anyhow_send fun r v hv => ?_
    cases r with
    | ok a => exact Flow.anyhow_done ⟨.sent i, hone w v, hv⟩
    | error g => exact Flow.anyhow_done ⟨.failed i g, hone w v, hv⟩
  | succ left ih =>
    refine Flow.anyhow_send fun r v hv => ?_
    cases r with
    | ok a => exact Flow.anyhow_done ⟨.sent i, hone w v, hv⟩
    | error g =>
      unfold Flow.bind
      dsimp only
      by_cases hg : g.isTransient = true
      · rw [if_pos hg]
        -- the failure is counted, and then there is a pause, in which the time may run out
        refine Flow.anyhow_act (a := .count .sendRetries 1) rfl ?_
        refine Flow.anyhow_wait fun b v' hv' => ?_
        have hmoved : w.Unmoved v' := hv.trans ((World.aside_count v _ _).unmoved.trans hv')
        have hcount : Deeds.Still [⟨v, .count .sendRetries 1, v.count .sendRetries 1⟩] :=
          ⟨rfl, rfl, rfl⟩
        cases b with
        | false =>
          refine Flow.anyhow_done ⟨.late i hg, ?_, hmoved⟩
          exact (hone w v).append_still hcount
        | true =>
          refine (ih (i + 1)).imp ?_
          rintro s l e w' ⟨hs, hl, hw'⟩
          refine ⟨.again hg hs, ?_, hmoved.trans hw'⟩
          exact (hone w v).append (hcount.still_append hl)
      · rw [if_neg hg]
        have hexhausted : g.exhausted i = g := if_neg hg
        refine Flow.anyhow_done ⟨?_, hone w v, hv⟩
        have hfailed := Tries.failed i g
        rwa [hexhausted] at hfailed

/-! ### One request -/

/-- The fault that comes of attempts to send a message, if any does. -/
def sendFault (d : Deadline) : Option (Except MessageFailure Unit) → Option Fault
  | some (.ok ()) => none
  | some (.error g) => some (.ofMessage g)
  | none => some (.late d.timeout)

/-- To ask for an item is to make a number of attempts with one message. -/
theorem anyhow_request (p : RetryPolicy) (n : OrderNumber) (i : Item) (d : Deadline) :
    WorkAnyhow (Work.within d (Kitchen.request p n i)) w fun s l r w' => ∃ x e key,
      Asks (n, i) x ∧ Tries 1 s e ∧ Deeds.Tally [] [] (List.replicate s.length x) l ∧
        w.Unmoved w' ∧ r = unlessFault (sendFault d e) key := by
  refine Flow.anyhow_act (a := .freshKey) rfl ?_
  refine Flow.anyhow_act (a := .clock) rfl ?_
  generalize (w.perform .freshKey).1 = key
  have hmoved : w.Unmoved (w.perform .freshKey).2 := ⟨rfl, rfl, rfl⟩
  generalize (w.perform .freshKey).2 = v at hmoved ⊢
  have hbefore : Deeds.Still [⟨w, .freshKey, v⟩, ⟨v, .clock, v⟩] := ⟨rfl, rfl, rfl⟩
  show Flow.Anyhow (Flow.bind _ (Flow.before d.tick (Flow.bind _ (Flow.bind _
    (publish p (.itemRequested n i key v.time)))))) v _
  rw [Flow.before_bind, Flow.before_bind, Flow.bind_assoc, Flow.bind_assoc]
  refine Flow.Anyhow.bind (anyhow_publish p (.itemRequested n i key v.time) d.tick) ?_
  rintro s l e w₁ ⟨hs, hl, hw₁⟩
  have hasks : Asks (n, i) (.itemRequested n i key v.time) := ⟨key, v.time, rfl⟩
  have hall := hbefore.still_append hl
  cases e with
  | none =>
    apply Flow.anyhow_done
    rw [List.append_nil, List.append_nil]
    exact ⟨_, none, key, hasks, hs, hall, hmoved.trans hw₁, rfl⟩
  | some e =>
    cases e with
    | error g =>
      apply Flow.anyhow_done
      rw [List.append_nil, List.append_nil]
      exact ⟨_, some (.error g), key, hasks, hs, hall, hmoved.trans hw₁, rfl⟩
    | ok a =>
      -- what was sent is counted
      refine Flow.anyhow_act (a := .count .kitchenRequests 1) rfl (Flow.anyhow_done ?_)
      rw [List.append_nil]
      have hcount : Deeds.Still
          [⟨w₁, .count .kitchenRequests 1, w₁.count .kitchenRequests 1⟩] := ⟨rfl, rfl, rfl⟩
      have hcounted := hmoved.trans (hw₁.trans (World.aside_count w₁ .kitchenRequests 1).unmoved)
      refine ⟨_, some (.ok ()), key, hasks, hs, ?_, hcounted, rfl⟩
      exact hbefore.still_append (hl.append_still hcount)

/-! ### Several requests -/

/-- Requests for the items that an order needs, one after the other up to the first one that fails:
the items that were asked for in the end, the answers to the attempts, the messages of the attempts,
and the fault. -/
inductive Attempts (d : Deadline) (n : OrderNumber) :
    List Item → List Item → Replies → List Envelope → Option Fault → Prop
  | nil : Attempts d n [] [] [] [] none
  | sent {i : Item} {needed sent : List Item} {x : Envelope} {s s' : Replies} {xs : List Envelope}
    {fault : Option Fault} (hx : Asks (n, i) x) (hs : Tries 1 s (some (.ok ())))
    (hrest : Attempts d n needed sent s' xs fault) :
    Attempts d n (i :: needed) (i :: sent) (s ++ s') (List.replicate s.length x ++ xs) fault
  | failed {i : Item} {needed : List Item} {x : Envelope} {s : Replies}
    {e : Option (Except MessageFailure Unit)} {f : Fault} (hx : Asks (n, i) x) (hs : Tries 1 s e)
    (hf : sendFault d e = some f) :
    Attempts d n (i :: needed) [] s (List.replicate s.length x) (some f)

namespace Attempts

variable {d : Deadline} {n : OrderNumber} {needed sent : List Item} {s : Replies}
  {xs : List Envelope} {fault : Option Fault}

/-- **The first items are asked for**: all of them if nothing fails, and else those before the one
that is tried in vain. -/
theorem sent_prefix (h : Attempts d n needed sent s xs fault) :
    (fault = none → sent = needed) ∧
      ∀ f, fault = some f → ∃ i rest, needed = sent ++ i :: rest := by
  induction h with
  | nil => simp
  | sent _ _ _ ih =>
    obtain ⟨hnone, hsome⟩ := ih
    constructor
    · intro h0
      rw [hnone h0]
    · intro f hf
      obtain ⟨i, rest, hrest⟩ := hsome f hf
      exact ⟨i, rest, by rw [hrest]; rfl⟩
  | failed => simp

theorem first (h : Attempts d n needed sent s xs fault) :
    sent <+: needed ∧ (fault = none ↔ sent = needed) := by
  obtain ⟨hall, hsome⟩ := h.sent_prefix
  cases fault with
  | none => simp [hall rfl]
  | some f =>
    obtain ⟨i, rest, rfl⟩ := hsome f rfl
    simp

/-- As long as sending works, all items are asked for, at the first attempt. -/
theorem of_ok (h : Attempts d n needed sent s xs fault) (hs : ∀ r ∈ s, r = .ok ()) :
    fault = none ∧ List.Forall₂ Asks (needed.map fun i => (n, i)) xs := by
  induction h with
  | nil => exact ⟨rfl, .nil⟩
  | sent hx hsent _ ih =>
    obtain ⟨hfirst, hrest⟩ := List.forall_mem_append.1 hs
    obtain ⟨hone, -⟩ := hsent.of_ok hfirst
    obtain ⟨hfault, hasks⟩ := ih hrest
    subst hone
    exact ⟨hfault, .cons hx hasks⟩
  | failed hx hfailed hf =>
    obtain ⟨-, he⟩ := hfailed.of_ok hs
    rw [he] at hf
    cases hf

end Attempts

namespace Coverage

variable {c : Coverage} (d : Deadline)

/-- **The kitchen is asked for one item after the other**, until a request fails. -/
theorem anyhow_requestAll (n : OrderNumber) (items : List Item) :
    WorkAnyhow (c.requestAll d n items) w fun s l r w' => ∃ sent fault,
      Attempts d n items sent s (Deeds.sent l) fault ∧ Deeds.Tally [] [] (Deeds.sent l) l ∧
        w.Unmoved w' ∧ r = unlessFault fault () := by
  induction items generalizing w with
  | nil => exact workAnyhow_pure ⟨[], none, .nil, Deeds.still_nil, World.Unmoved.refl w, rfl⟩
  | cons i r ih =>
    unfold requestAll
    refine WorkAnyhow.bind (anyhow_request c.policy n i d) ?_ ?_
    · rintro s₁ l₁ k w₁ ⟨x, e, key, hx, hs, hl₁, hw₁, hr⟩
      have he : e = some (.ok ()) := by
        cases e with
        | none => cases hr
        | some reply =>
          cases reply with
          | ok u => rfl
          | error g => cases hr
      subst he
      refine ih.imp ?_
      rintro s₂ l₂ res w₂ ⟨sent, fault, hattempts, hl₂, hw₂, hres⟩
      have hall := hl₁.append hl₂
      refine ⟨i :: sent, fault, ?_, ?_, hw₁.trans hw₂, hres⟩
      · rw [hall.sent]
        exact .sent hx hs hattempts
      · rwa [hall.sent]
    · rintro s l f w₁ ⟨x, e, key, hx, hs, hl, hw₁, hr⟩
      cases hf : sendFault d e with
      | none =>
        rw [hf] at hr
        cases hr
      | some g =>
        rw [hf] at hr
        cases hr
        refine ⟨[], some f, ?_, ?_, hw₁, rfl⟩
        · rw [hl.sent]
          exact .failed hx hs hf
        · rwa [hl.sent]

end Coverage

end Takeaway
