import Takeaway.Proofs.Flow.Does

/-!
Flows for which sending turns out in any way. Each attempt to send is answered as it may be, and
whatever takes time is over at any time and with any outcome, so that calls may or may not be over
by a deadline; all other actions are done as ever. Main statements: the rules by which what holds
anyhow follows from what holds of the parts; that a run of a flow by itself is one of the ways in
which it is carried through; and that there is one for whichever answers to the attempts.
-/

namespace Takeaway

open World (Aside)

/-- The answers to attempts to send, in the order of the attempts. -/
abbrev Replies := List (Except MessageFailure Unit)

/-- Whether an action is an attempt to send. -/
def Action.isSend : Action → Bool
  | .send _ => true
  | _ => false

/-- Whether waiting for this takes any time. -/
def Wait.takesTime : Wait → Bool
  | .pause s => decide (s.ticks ≠ 0)
  | .forever | .slot => true

namespace World

variable {w w' w'' : World}

/-- As far as orders and stock go the one world is the other, and what is sent is still recorded;
anything else may have changed. -/
structure Unmoved (w w' : World) : Prop where
  store : w'.store = w.store
  stock : w'.stock = w.stock
  records : w'.broker.records = w.broker.records

namespace Unmoved

protected theorem refl (w : World) : w.Unmoved w := ⟨rfl, rfl, rfl⟩

protected theorem trans (h : w.Unmoved w') (h' : w'.Unmoved w'') : w.Unmoved w'' where
  store := h'.store.trans h.store
  stock := h'.stock.trans h.stock
  records := h'.records.trans h.records

theorem orders (h : w.Unmoved w') : w'.orders = w.orders := congrArg (·.store.orders) h.store

theorem answers (h : w.Unmoved w') (ha : w.store.store.answers = true) :
    w'.store.store.answers = true := by
  rw [h.store]
  exact ha

theorem tidy (h : w.Unmoved w') (hw : w.Tidy) : w'.Tidy where
  script := by rw [h.store]; exact hw.script
  frozen := by rw [h.store]; exact hw.frozen
  announces := by rw [h.stock]; exact hw.announces
  records := h.records.trans hw.records
  numbered n o ho := by
    rw [h.orders] at ho
    rw [h.store]
    exact hw.numbered n o ho

end Unmoved

theorem Aside.unmoved {a : Multiset Envelope} (h : Aside a w w') : w.Unmoved w' :=
  ⟨h.store, h.stock, h.records⟩

end World

namespace Flow

variable {α β : Type} {rank : World.Rank} {w w' : World} {s : Replies} {l : List Deed}

/-- A flow is carried through: its attempts to send are answered like this, it does these deeds, and
it ends with this value in this world. -/
inductive Carried : Flow α → World → Replies → List Deed → α → World → Prop
  | done (a : α) (w : World) : Carried (.done a) w [] [] a w
  | act {a : Action} {next : a.Answer → Flow α} {w w' : World} {s : Replies} {l : List Deed} {x : α}
    (ha : a.isSend = false)
    (hnext : Carried (next (w.perform a).1) (w.perform a).2 s l x w') :
    Carried (.act a next) w s (⟨w, a, (w.perform a).2⟩ :: l) x w'
  | send {e : Envelope} {next : Except MessageFailure Unit → Flow α} {w v w' : World}
    {r : Except MessageFailure Unit} {s : Replies} {l : List Deed} {x : α} (hv : w.Unmoved v)
    (hnext : Carried (next r) v s l x w') :
    Carried (.act (.send e) next) w (r :: s) (⟨w, .send e, v⟩ :: l) x w'
  | now {wt : Wait} {limit : Option Nat} {next : Bool → Flow α} {w w' : World} {s : Replies}
    {l : List Deed} {x : α} (hwt : wt.takesTime = false) (hnext : Carried (next true) w s l x w') :
    Carried (.wait wt limit next) w s l x w'
  | later {wt : Wait} {limit : Option Nat} {next : Bool → Flow α} {w v w' : World} {b : Bool}
    {s : Replies} {l : List Deed} {x : α} (hwt : wt.takesTime = true) (hv : w.Unmoved v)
    (hnext : Carried (next b) v s l x w') : Carried (.wait wt limit next) w s l x w'

/-! ### The ways in which flows are carried through -/

/-- **A run by itself carries the flow through**; if sending works, all attempts succeed. -/
theorem carried_run (rank : World.Rank) (x : Flow α) (w : World) :
    ∃ s, x.Carried w s (x.trail rank w) (x.run rank w).1 (x.run rank w).2 ∧
      (w.Flowing → ∀ r ∈ s, r = .ok ()) := by
  induction x generalizing w with
  | done a => exact ⟨[], .done a w, fun _ => by simp⟩
  | act a next ih =>
    obtain ⟨s, hs, hok⟩ := ih (w.perform a).1 (w.perform a).2
    by_cases ha : a.isSend = true
    · cases a with
      | send e =>
        refine ⟨(w.send e).1 :: s, .send (World.aside_send w e).unmoved hs, fun hw => ?_⟩
        refine List.forall_mem_cons.2 ⟨?_, hok ((World.kept_perform w (.send e)).flowing hw)⟩
        rw [World.send_of_flowing hw]
      | _ => cases ha
    · exact ⟨s, .act (Bool.eq_false_iff.2 ha) hs, fun hw =>
        hok ((World.kept_perform w a).flowing hw)⟩
  | wait wt limit next ih =>
    have haside := w.aside_await rank wt limit
    obtain ⟨s, hs, hok⟩ := ih (w.await rank wt limit).1 (w.await rank wt limit).2
    refine ⟨s, ?_, fun hw => hok (haside.kept.flowing hw)⟩
    by_cases hwt : wt.takesTime = true
    · exact .later hwt haside.unmoved hs
    · cases wt with
      | pause t =>
        have ht : t.ticks = 0 := by simpa [Wait.takesTime] using hwt
        refine .now (Bool.eq_false_iff.2 hwt) ?_
        rw [trail_wait, run_wait]
        rw [await_of_ticks ht] at hs ⊢
        exact hs
      | forever => cases hwt rfl
      | slot => cases hwt rfl

/-- **Whatever the attempts are answered, there is a way to carry the flow through.** -/
theorem exists_carried (replies : Nat → Except MessageFailure Unit) (x : Flow α) (w : World) :
    ∃ s l a w', x.Carried w s l a w' ∧ ∀ k r, s[k]? = some r → r = replies k := by
  induction x generalizing w replies with
  | done a => exact ⟨[], [], a, w, .done a w, by simp⟩
  | act a next ih =>
    by_cases ha : a.isSend = true
    · cases a with
      | send e =>
        obtain ⟨s, l, b, w', hs, hall⟩ := ih (replies 0) (fun k => replies (k + 1)) w
        refine ⟨_, _, b, w', .send (World.Unmoved.refl w) hs, fun k r hk => ?_⟩
        cases k with
        | zero => simpa using hk.symm
        | succ k => exact hall k r (by simpa using hk)
      | _ => cases ha
    · obtain ⟨s, l, b, w', hs, hall⟩ := ih (w.perform a).1 replies (w.perform a).2
      exact ⟨s, _, b, w', .act (Bool.eq_false_iff.2 ha) hs, hall⟩
  | wait wt limit next ih =>
    obtain ⟨s, l, b, w', hs, hall⟩ := ih true replies w
    refine ⟨s, l, b, w', ?_, hall⟩
    by_cases hwt : wt.takesTime = true
    · exact .later hwt (World.Unmoved.refl w) hs
    · exact .now (Bool.eq_false_iff.2 hwt) hs

/-! ### What holds anyhow -/

/-- In whichever way a flow is carried through, a statement holds of the answers to its attempts to
send, of its deeds, of the value it ends with and of the world that it leaves. -/
def Anyhow (x : Flow α) (w : World) (p : Replies → List Deed → α → World → Prop) : Prop :=
  ∀ s l a w', x.Carried w s l a w' → p s l a w'

variable {p : Replies → List Deed → α → World → Prop} {q : Replies → List Deed → β → World → Prop}

theorem anyhow_done {a : α} (h : p [] [] a w) : (done a).Anyhow w p := by
  rintro s l b w' ⟨⟩
  exact h

theorem anyhow_act {a : Action} {next : a.Answer → Flow α} (ha : a.isSend = false)
    (h : (next (w.perform a).1).Anyhow (w.perform a).2 fun s l =>
      p s (⟨w, a, (w.perform a).2⟩ :: l)) : (act a next).Anyhow w p := by
  intro s l b w' hx
  cases hx with
  | act _ hnext => exact h _ _ _ _ hnext
  | send => cases ha

theorem anyhow_send {e : Envelope} {next : Except MessageFailure Unit → Flow α}
    (h : ∀ r v, w.Unmoved v → (next r).Anyhow v fun s l => p (r :: s) (⟨w, .send e, v⟩ :: l)) :
    (act (.send e) next).Anyhow w p := by
  intro s l b w' hx
  cases hx with
  | act ha => cases ha
  | send hv hnext => exact h _ _ hv _ _ _ _ hnext

theorem anyhow_wait {wt : Wait} {limit : Option Nat} {next : Bool → Flow α}
    (h : ∀ b v, w.Unmoved v → (next b).Anyhow v p) : (wait wt limit next).Anyhow w p := by
  intro s l b w' hx
  cases hx with
  | now _ hnext => exact h _ _ (World.Unmoved.refl w) _ _ _ _ hnext
  | later _ hv hnext => exact h _ _ hv _ _ _ _ hnext

theorem anyhow_ask {a : Action} {p : Replies → List Deed → a.Answer → World → Prop}
    (ha : a.isSend = false) (h : p [] [⟨w, a, (w.perform a).2⟩] (w.perform a).1 (w.perform a).2) :
    (ask a).Anyhow w p := anyhow_act ha (anyhow_done h)

theorem Anyhow.imp {x : Flow α} {p' : Replies → List Deed → α → World → Prop} (h : x.Anyhow w p)
    (hp : ∀ s l a w', p s l a w' → p' s l a w') : x.Anyhow w p' :=
  fun s l a w' hx => hp s l a w' (h s l a w' hx)

theorem Anyhow.bind {x : Flow α} {f : α → Flow β} (hx : x.Anyhow w p)
    (hf : ∀ s l a w', p s l a w' → (f a).Anyhow w' fun s' l' => q (s ++ s') (l ++ l')) :
    (x.bind f).Anyhow w q := by
  induction x generalizing w p q with
  | done a => exact hf [] [] a w (hx _ _ _ _ (.done a w))
  | act a next ih =>
    by_cases ha : a.isSend = true
    · cases a with
      | send e =>
        refine anyhow_send fun r v hv =>
          ih r (p := fun s l => p (r :: s) (⟨w, .send e, v⟩ :: l)) ?_ ?_
        · exact fun s l b w' hnext => hx _ _ _ _ (.send hv hnext)
        · exact fun s l b w' hb => hf _ _ b w' hb
      | _ => cases ha
    · have ha : a.isSend = false := Bool.eq_false_iff.2 ha
      refine anyhow_act ha (ih _ (p := fun s l => p s (⟨w, a, (w.perform a).2⟩ :: l)) ?_ ?_)
      · exact fun s l b w' hnext => hx _ _ _ _ (.act ha hnext)
      · exact fun s l b w' hb => hf _ _ b w' hb
  | wait wt limit next ih =>
    intro s l b w' h
    cases h with
    | now hwt hnext =>
      refine ih true (p := p) (fun s l c w' hc => hx _ _ _ _ (.now hwt hc)) ?_ _ _ _ _ hnext
      exact fun s l c w' hc => hf _ _ c w' hc
    | later hwt hv hnext =>
      refine ih _ (p := p) (fun s l c w' hc => hx _ _ _ _ (.later hwt hv hc)) ?_ _ _ _ _ hnext
      exact fun s l c w' hc => hf _ _ c w' hc

/-- What holds anyhow holds of a run by itself. -/
theorem Anyhow.does {x : Flow α} (h : x.Anyhow w p) :
    x.Does rank w fun l a w' => ∃ s, p s l a w' ∧ (w.Flowing → ∀ r ∈ s, r = .ok ()) := by
  obtain ⟨s, hs, hok⟩ := carried_run rank x w
  exact ⟨s, h _ _ _ _ hs, hok⟩

/-- A flow that neither waits nor sends is carried through in one way. -/
theorem Prompt.anyhow {x : Flow α} (hx : x.Prompt w) (heach : x.Each fun a => a.isSend = false)
    {p : List Deed → α → World → Prop} (h : x.Does .first w p) :
    x.Anyhow w fun s l a w' => s = [] ∧ p l a w' := by
  induction x generalizing w p with
  | done a => exact anyhow_done ⟨rfl, h⟩
  | act a next ih =>
    obtain ⟨ha, hnext⟩ := heach
    exact anyhow_act ha (ih _ hx (hnext _) h)
  | wait wt limit next ih =>
    cases wt with
    | pause t =>
      obtain ⟨ht, hnext⟩ := hx
      have hdoes : (next true).Does .first w p := by
        unfold Does at h
        rwa [trail_wait, run_wait, await_of_ticks ht] at h
      intro s l b w' hc
      cases hc with
      | now _ hc => exact ih true hnext (heach true) hdoes _ _ _ _ hc
      | later hwt => simp [Wait.takesTime, ht] at hwt
    | forever => cases hx
    | slot => cases hx

/-! ### Limits -/

/-- A flow with a limit is its parts with the limit, one after the other. -/
theorem before_bind (x : Flow α) (f : α → Flow β) (tick : Nat) :
    (x.bind f).before tick =
      (x.before tick).bind fun r => match r with
        | some a => (f a).before tick
        | none => done none := by
  induction x with
  | done a => rfl
  | act a next ih => exact congrArg _ (funext ih)
  | wait wt limit next ih =>
    cases limit with
    | none =>
      refine congrArg _ (funext fun b => ?_)
      cases b
      · rfl
      · exact ih true
    | some limit =>
      refine congrArg _ (funext fun b => ?_)
      cases b
      · by_cases hl : limit ≤ tick
        · simpa only [hl, Bool.false_eq_true, if_false, if_true] using ih false
        · simp only [hl, Bool.false_eq_true, if_false]
          rfl
      · exact ih true

/-- A flow that does not wait does not wait with a limit. -/
theorem Prompt.before {x : Flow α} (hx : x.Prompt w) (tick : Nat) : (x.before tick).Prompt w := by
  induction x generalizing w with
  | done a => trivial
  | act a next ih => exact ih _ hx
  | wait wt limit next ih =>
    cases wt with
    | pause t =>
      obtain ⟨ht, hnext⟩ := hx
      cases limit <;> exact ⟨ht, ih true hnext⟩
    | forever => cases hx
    | slot => cases hx

theorem Each.imp {P Q : Action → Prop} {x : Flow α} (hx : x.Each P) (h : ∀ a, P a → Q a) :
    x.Each Q := by
  induction x with
  | done a => trivial
  | act a next ih => exact ⟨h a hx.1, fun r => ih r (hx.2 r)⟩
  | wait wt limit next ih => exact fun b => ih b (hx b)

end Flow

/-! ### Work -/

section Work

variable {ε α β : Type} {w : World}

/-- In whichever way some work is carried through, a statement holds of the answers to its attempts
to send, of its deeds, of its result and of the world that it leaves. -/
def WorkAnyhow (x : ExceptT ε Flow α) (w : World)
    (p : Replies → List Deed → Except ε α → World → Prop) : Prop := Flow.Anyhow x.run w p

variable {p : Replies → List Deed → Except ε α → World → Prop}
  {q : Replies → List Deed → Except ε β → World → Prop}

theorem workAnyhow_pure {a : α} (h : p [] [] (.ok a) w) :
    WorkAnyhow (pure a : ExceptT ε Flow α) w p := Flow.anyhow_done h

theorem workAnyhow_throw {e : ε} (h : p [] [] (.error e) w) :
    WorkAnyhow (throw e : ExceptT ε Flow α) w p := Flow.anyhow_done h

theorem WorkAnyhow.imp {x : ExceptT ε Flow α} {p' : Replies → List Deed → Except ε α → World → Prop}
    (h : WorkAnyhow x w p) (hp : ∀ s l r w', p s l r w' → p' s l r w') : WorkAnyhow x w p' :=
  Flow.Anyhow.imp h hp

/-- What holds anyhow holds of work that is done by itself. -/
theorem WorkAnyhow.does {rank : World.Rank} {x : ExceptT ε Flow α} (h : WorkAnyhow x w p) :
    WorkDoes rank x w fun l r w' => ∃ s, p s l r w' ∧ (w.Flowing → ∀ r ∈ s, r = .ok ()) :=
  Flow.Anyhow.does h

theorem WorkAnyhow.bind {x : ExceptT ε Flow α} {f : α → ExceptT ε Flow β} (hx : WorkAnyhow x w p)
    (hok : ∀ s l a w', p s l (.ok a) w' →
      WorkAnyhow (f a) w' fun s' l' => q (s ++ s') (l ++ l'))
    (herr : ∀ s l e w', p s l (.error e) w' → q s l (.error e) w') :
    WorkAnyhow (x >>= f) w q := by
  refine Flow.Anyhow.bind hx fun s l r w' hr => ?_
  cases r with
  | ok a => exact hok s l a w' hr
  | error e =>
    refine Flow.anyhow_done ?_
    rw [List.append_nil, List.append_nil]
    exact herr s l e w' hr

theorem workAnyhow_lift {x : Flow α} (h : x.Anyhow w fun s l a w' => p s l (.ok a) w') :
    WorkAnyhow (ExceptT.lift x : ExceptT ε Flow α) w p := by
  refine Flow.Anyhow.bind h fun s l a w' ha => Flow.anyhow_done ?_
  rwa [List.append_nil, List.append_nil]

/-- Work that goes on after a flow, which cannot fail. -/
theorem Flow.Anyhow.bind_lift {x : Flow α} {f : α → ExceptT ε Flow β}
    {p : Replies → List Deed → α → World → Prop} (hx : x.Anyhow w p)
    (hf : ∀ s l a w', p s l a w' → WorkAnyhow (f a) w' fun s' l' => q (s ++ s') (l ++ l')) :
    WorkAnyhow (ExceptT.lift x >>= f) w q := by
  refine WorkAnyhow.bind (p := fun s l r w' => ∃ a, r = .ok a ∧ p s l a w')
    (workAnyhow_lift (hx.imp fun s l a w' ha => ⟨a, rfl, ha⟩)) ?_ (by rintro _ _ _ _ ⟨_, ⟨⟩, -⟩)
  rintro s l a w' ⟨_, ⟨⟩, ha⟩
  exact hf s l a w' ha

/-- Work that goes on unless something is refused. -/
theorem workAnyhow_bind_ofRefusal {x : Except Refusal α} {f : α → Work β}
    {q : Replies → List Deed → Except Fault β → World → Prop}
    (hok : ∀ a, x = .ok a → WorkAnyhow (f a) w q)
    (herr : ∀ r, x = .error r → q [] [] (.error (Fault.ofRefusal r)) w) :
    WorkAnyhow (Work.ofRefusal x >>= f) w q := by
  cases x with
  | ok a => exact hok a rfl
  | error r => exact workAnyhow_throw (herr r rfl)

end Work

end Takeaway
