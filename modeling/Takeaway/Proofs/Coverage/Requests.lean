import Takeaway.Proofs.Coverage.Actions
import Takeaway.Proofs.Coverage.Conduct
import Takeaway.Proofs.Flow.Does

/-!
How the kitchen is asked. Main statement: of the items that it is to be asked for, those up to the
first failure are tried in their order, each at least once; and as long as sending works, it is
asked for all of them, once each.
-/

namespace Takeaway

open World (Aside)

variable {rank : World.Rank} {w : World}

/-! ### Requests among what was sent -/

/-- A message asks the kitchen for an item for an order. -/
def Asks (r : OrderNumber × Item) (x : Envelope) : Prop :=
  ∃ key time, x = .itemRequested r.1 r.2 key time

/-- The messages that were to be sent are attempts to ask for this and that, one after the other,
one or more attempts with the same message for each. -/
inductive Tried : List (OrderNumber × Item) → List Envelope → Prop
  | nil : Tried [] []
  | cons {r : OrderNumber × Item} {rs : List (OrderNumber × Item)} {x : Envelope}
    {xs : List Envelope} (k : Nat) (h : Asks r x) (hrest : Tried rs xs) :
    Tried (r :: rs) (List.replicate (k + 1) x ++ xs)

namespace Tried

variable {rs rs' : List (OrderNumber × Item)} {xs xs' : List Envelope}

theorem append (h : Tried rs xs) (h' : Tried rs' xs') : Tried (rs ++ rs') (xs ++ xs') := by
  induction h with
  | nil => exact h'
  | cons k hx _ ih =>
    rw [List.append_assoc, List.cons_append]
    exact .cons k hx ih

theorem eq_nil (h : Tried [] xs) : xs = [] := by
  cases h
  rfl

end Tried

/-! ### One request -/

/-- A flow that begins with an attempt to send a message, and sends nothing else. -/
theorem Flow.surely_attempts {α : Type} {x : Flow α} {e : Envelope}
    (hfirst : ∃ next, x = .act (.send e) next)
    (heach : x.Each fun a => a = .send e ∨ a.isStill = true) :
    x.Surely w fun l _ _ => ∃ k, Deeds.Tally [] [] (List.replicate (k + 1) e) l := by
  obtain ⟨next, rfl⟩ := hfirst
  refine Flow.surely_act fun r v _ => (heach.2 r).surely.imp fun l _ _ hl => ?_
  have hone : Deeds.Tally [] [] [e] [⟨w, .send e, v⟩] := ⟨rfl, rfl, rfl⟩
  obtain ⟨k, hk⟩ := Deeds.tally_of_only hl
  exact ⟨k, hone.append hk⟩

/-- To publish a message begins with an attempt to send it. -/
theorem publish_eq (p : RetryPolicy) (x : Envelope) :
    ∃ next, publish p x = .act (.send x) next := by
  unfold publish
  cases p.limit - 1 <;> exact ⟨_, rfl⟩

namespace Kitchen

/-- To ask for an item is to make attempts with one message, the first one whatever the deadline. -/
theorem surely_request (p : RetryPolicy) (n : OrderNumber) (i : Item) (d : Deadline) :
    WorkSurely (Work.within d (request p n i)) w fun l _ _ => ∃ x k, Asks (n, i) x ∧
      Deeds.Tally [] [] (List.replicate (k + 1) x) l := by
  refine Flow.surely_act (a := .freshKey) fun key v₁ _ => ?_
  refine Flow.surely_act (a := .clock) fun time v₂ _ => ?_
  have hbefore : Deeds.Still [⟨w, .freshKey, v₁⟩, ⟨v₁, .clock, v₂⟩] := ⟨rfl, rfl, rfl⟩
  refine (Flow.surely_attempts (e := .itemRequested n i key time) ?_ ?_).imp ?_
  · obtain ⟨next, hnext⟩ := publish_eq p (.itemRequested n i key time)
    show ∃ next, Flow.bind _ (Flow.before d.tick (Flow.bind _ (Flow.bind _
      (publish p (.itemRequested n i key time))))) = _
    rw [hnext]
    exact ⟨_, rfl⟩
  · refine Flow.Each.bind (Flow.Each.before (Flow.Each.bind (Flow.Each.bind
      (each_publish p (.inl rfl) (.inr rfl)) fun r => ?_) fun r => ?_) _) fun r => ?_
    · trivial
    · cases r with
      | ok a => exact ⟨.inr rfl, fun _ => trivial⟩
      | error f => trivial
    · cases r <;> trivial
  · rintro l _ _ ⟨k, hk⟩
    exact ⟨_, k, ⟨key, time, rfl⟩, hbefore.still_append hk⟩

/-- As long as sending works, one attempt is enough. -/
theorem does_request (p : RetryPolicy) (n : OrderNumber) (i : Item) (d : Deadline) :
    WorkDoes rank (Work.within d (request p n i)) w fun l r w' =>
      (∃ x k, Asks (n, i) x ∧ Deeds.Tally [] [] (List.replicate (k + 1) x) l ∧
        (w.Flowing → k = 0)) ∧
      (∃ new, Aside new w w') ∧ (w.Flowing → ∃ key, r = .ok key) := by
  have hquiet : WorkEnds rank (Work.within d (request p n i)) w fun _ w' =>
      ∃ new, Aside new w w' := ((quietWork_request p n i).within d).ends
  have hmail := Flow.mail_run rank (Work.within d (request p n i)).run w
  have hdone : WorkDoes rank (Work.within d (request p n i)) w _ := (surely_request p n i d).does
  obtain ⟨x, k, hx, hl⟩ := hdone
  by_cases hw : w.Flowing
  · have honce : WorkEnds rank (Work.within d (request p n i)) w _ :=
      (atOnce_request hw p n i).within d
    obtain ⟨hok, key, time, haside⟩ := honce
    refine ⟨⟨x, k, hx, hl, fun _ => ?_⟩, hquiet, fun _ => hok⟩
    -- as many messages came to those sent or under way as were to be sent
    have hcount := congrArg Multiset.card ((hmail.traffic hw).symm.trans (haside.traffic hw))
    unfold Deeds.said at hcount
    rw [hl.sent, hl.noted] at hcount
    simp only [Multiset.card_add, Multiset.coe_card, List.append_nil, List.length_replicate,
      Multiset.card_singleton] at hcount
    omega
  · exact ⟨⟨x, k, hx, hl, fun h => absurd h hw⟩, hquiet, fun h => absurd h hw⟩

end Kitchen

namespace Coverage

variable {c : Coverage} (d : Deadline)

/-! ### Several requests -/

/-- Of the items that the kitchen is to be asked for on behalf of an order, those up to the first
failure were tried, and nothing else was done. -/
structure Asking (n : OrderNumber) (items : List Item) (l : List Deed) (r : Except Fault Unit)
    (w w' : World) : Prop where
  tally : Deeds.Tally [] [] (Deeds.sent l) l
  tried : ∃ is, is <+: items ∧ Tried (is.map fun i => (n, i)) (Deeds.sent l) ∧
    (r = .ok () → is = items) ∧ (items ≠ [] → is ≠ [])
  settled : items = [] → r = .ok ()
  left : ∃ new, Aside new w w'
  flowing : w.Flowing → r = .ok () ∧ List.Forall₂ Asks (items.map fun i => (n, i)) (Deeds.sent l)

/-- **The kitchen is asked for one item after the other**, until a request fails. -/
theorem does_requestAll (n : OrderNumber) (items : List Item) :
    WorkDoes rank (c.requestAll d n items) w fun l r w' => Asking n items l r w w' := by
  induction items generalizing w with
  | nil =>
    exact workDoes_pure ⟨Deeds.still_nil, ⟨[], List.nil_prefix, .nil, fun _ => rfl, id⟩,
      fun _ => rfl, ⟨0, Aside.refl w⟩, fun _ => ⟨rfl, .nil⟩⟩
  | cons i r ih =>
    unfold requestAll
    refine WorkDoes.bind (Kitchen.does_request c.policy n i d) ?_ ?_
    · rintro l₁ key w₁ ⟨⟨x, k, hx, h₁, hone⟩, ⟨a, ha⟩, -⟩
      refine ih.imp fun l₂ res w₂ h₂ => ?_
      have hall := h₁.append h₂.tally
      obtain ⟨is, hprefix, htried, hdone, -⟩ := h₂.tried
      obtain ⟨b, hb⟩ := h₂.left
      constructor
      case tally => rwa [hall.sent]
      case tried =>
        refine ⟨i :: is, List.cons_prefix_cons.2 ⟨rfl, hprefix⟩, ?_, ?_, ?_⟩
        · rw [hall.sent]
          exact .cons k hx htried
        · exact fun hok => by rw [hdone hok]
        · exact fun _ => List.cons_ne_nil _ _
      case settled => exact fun h => absurd h (List.cons_ne_nil _ _)
      case left => exact ⟨_, ha.trans hb⟩
      case flowing =>
        intro hw
        obtain ⟨hok, hasks⟩ := h₂.flowing (ha.flowing hw)
        refine ⟨hok, ?_⟩
        rw [hall.sent, hone hw]
        exact .cons hx hasks
    · rintro l f w₁ ⟨⟨x, k, hx, hl, -⟩, ha, hok⟩
      constructor
      case tally => rwa [hl.sent]
      case tried =>
        refine ⟨[i], List.prefix_append [i] r, ?_, (by rintro ⟨⟩), fun _ => List.cons_ne_nil _ _⟩
        rw [hl.sent, ← List.append_nil (List.replicate _ x)]
        exact .cons k hx .nil
      case settled => exact fun h => absurd h (List.cons_ne_nil _ _)
      case left => exact ha
      case flowing =>
        intro hw
        obtain ⟨key, hkey⟩ := hok hw
        cases hkey

end Coverage

end Takeaway
