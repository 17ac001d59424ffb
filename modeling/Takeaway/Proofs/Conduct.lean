import Takeaway.Proofs.Flow.Deeds
import Takeaway.Proofs.Message.Codec
import Takeaway.Proofs.Order.Onward

/-!
Good conduct. Whatever a flow does, and whichever calls fail on the way: orders only go onward; a
change of status is told in one notice, and notices of that kind tell of nothing else; and what is
said is about orders that are stored and items that are on the menu. Main statements: good conduct
of parts is good conduct of the whole, and flows that leave the orders alone are of good conduct as
long as they say nothing wrong.
-/

namespace Takeaway

open World (Aside)

/-! ### Changes of status -/

namespace Deed

/-- The new status of an order, if it had another one before. -/
def changeOf (d : Deed) (n : OrderNumber) : Option (OrderNumber × Status) :=
  match d.before.orders.find? n, d.after.orders.find? n with
  | some old, some new => if new.status = old.status then none else some (n, new.status)
  | _, _ => none

/-- The orders that were given another status, with the new one. -/
def changes (d : Deed) : List (OrderNumber × Status) := d.after.orders.keys.filterMap d.changeOf

end Deed

/-- Whether a message tells of a new status of an order. -/
def Envelope.isUpdate (x : Envelope) : Bool :=
  match x.event with
  | .ok v => decide (v = .statusUpdated)
  | .error _ => false

theorem Envelope.isUpdate_of_event {x : Envelope} {v : Event} (h : x.event = .ok v) :
    x.isUpdate = decide (v = .statusUpdated) := by
  unfold isUpdate
  rw [h]

namespace Deeds

/-- All changes of a status. -/
def changes (l : List Deed) : List (OrderNumber × Status) := l.flatMap Deed.changes

/-- The notices that tell of a new status. -/
def updates (l : List Deed) : List Envelope := (noted l).filter Envelope.isUpdate

theorem changes_append (l l' : List Deed) : changes (l ++ l') = changes l ++ changes l' :=
  List.flatMap_append

theorem updates_append (l l' : List Deed) : updates (l ++ l') = updates l ++ updates l' := by
  unfold updates
  rw [noted_append, List.filter_append]

end Deeds

/-- A message tells of a change of a status. -/
def Tells (c : OrderNumber × Status) (m : Envelope) : Prop :=
  ∃ time, m = .statusUpdated c.1 c.2 time

theorem filterMap_of_nodup {α β : Type} {f : α → Option β} {k : α} {l : List α} (hl : l.Nodup)
    (hk : k ∈ l) (hf : ∀ x ∈ l, x ≠ k → f x = none) : l.filterMap f = (f k).toList := by
  induction l with
  | nil => cases hk
  | cons x r ih =>
    obtain ⟨hx, hr⟩ := List.nodup_cons.1 hl
    have hrest := fun y hy => hf y (List.mem_cons_of_mem _ hy)
    by_cases heq : x = k
    · subst heq
      have hnone : r.filterMap f = [] :=
        List.filterMap_eq_nil_iff.2 fun y hy => hrest y hy fun h => hx (h ▸ hy)
      rw [List.filterMap_cons, hnone]
      cases f x <;> rfl
    · have hk := (List.mem_cons.1 hk).resolve_left fun h => heq h.symm
      rw [List.filterMap_cons, hf x (List.mem_cons_self ..) heq]
      exact ih hr hk hrest

namespace Deed

variable {w v : World} {a : Action}

theorem changes_of_orders (h : v.orders = w.orders) : (Deed.mk w a v).changes = [] := by
  refine List.filterMap_eq_nil_iff.2 fun n _ => ?_
  unfold changeOf
  rw [h]
  cases w.orders.find? n with
  | none => rfl
  | some o => exact if_pos rfl

/-- Writing an order changes no status but its own. -/
theorem changes_written {o new : Order} (ho : w.orders.find? new.number = some o) :
    (Deed.mk w a (w.written new)).changes =
      if new.status = o.status then [] else [(new.number, new.status)] := by
  have hself := w.find?_written new new.number
  rw [if_pos rfl] at hself
  have hmem : new.number ∈ (w.written new).orders.keys := Index.mem_keys.2 ⟨_, hself⟩
  have hother : ∀ n ∈ (w.written new).orders.keys, n ≠ new.number →
      (Deed.mk w a (w.written new)).changeOf n = none := by
    intro n _ hne
    have hsame := w.find?_written new n
    rw [if_neg fun h => hne h.symm] at hsame
    unfold changeOf
    rw [hsame]
    cases w.orders.find? n with
    | none => rfl
    | some x => exact if_pos rfl
  show (w.written new).orders.keys.filterMap _ = _
  rw [filterMap_of_nodup (Index.keys_nodup _) hmem hother]
  unfold changeOf
  rw [ho, hself]
  show (if new.status = o.status then none else some (new.number, new.status)).toList = _
  split <;> rfl

/-- An order that is written for the first time had no status before. -/
theorem changes_written_new {new : Order} (hnew : w.orders.find? new.number = none) :
    (Deed.mk w a (w.written new)).changes = [] := by
  refine List.filterMap_eq_nil_iff.2 fun n _ => ?_
  unfold changeOf
  have hsame := w.find?_written new n
  by_cases heq : new.number = n
  · subst heq
    rw [hnew]
  · rw [if_neg heq] at hsame
    rw [hsame]
    cases w.orders.find? n with
    | none => rfl
    | some x => exact if_pos rfl

end Deed

/-! ### What may be said -/

/-- A message that is true of a world: the order that it is about is stored, one that is to be
handed over is packed, the item that it is about is on the menu, and one that the kitchen is asked
for is kept in stock. -/
inductive World.Vouches (m : Menu) (w : World) : Envelope → Prop
  | orderPlaced {n : OrderNumber} {o : Order} (ho : w.orders.find? n = some o) (t : Timestamp) :
    Vouches m w (.orderPlaced n t)
  | orderCollected {n : OrderNumber} {o : Order} (ho : w.orders.find? n = some o)
    (hpacked : o.status.isOpen = false) (t : Timestamp) : Vouches m w (.orderCollected n t)
  | sweepRequested (t : Timestamp) : Vouches m w (.sweepRequested t)
  | itemAdded {i : Item} (hi : ∃ b, m.isInstant i.name = .ok b) (t : Timestamp) :
    Vouches m w (.itemAdded i t)
  | itemRequested {n : OrderNumber} {o : Order} {i : Item} (ho : w.orders.find? n = some o)
    (hi : m.isInstant i.name = .ok false) (k : RequestKey) (t : Timestamp) :
    Vouches m w (.itemRequested n i k t)
  | statusUpdated {n : OrderNumber} {o : Order} (ho : w.orders.find? n = some o) (s : Status)
    (t : Timestamp) : Vouches m w (.statusUpdated n s t)

/-- What was true stays true while orders go onward. -/
theorem World.Vouches.onward {m : Menu} {w w' : World} {x : Envelope} (h : w.Vouches m x)
    (hw : w.Onward w') : w'.Vouches m x := by
  cases h with
  | orderPlaced ho t =>
    obtain ⟨o', ho', -⟩ := hw _ _ ho
    exact .orderPlaced ho' t
  | orderCollected ho hpacked t =>
    obtain ⟨o', ho', hx⟩ := hw _ _ ho
    refine .orderCollected ho' ?_ t
    have hrank := hx.status
    rw [Bool.eq_false_iff, Ne, Status.isOpen_iff_rank] at hpacked ⊢
    omega
  | sweepRequested t => exact .sweepRequested t
  | itemAdded hi t => exact .itemAdded hi t
  | itemRequested ho hi k t =>
    obtain ⟨o', ho', -⟩ := hw _ _ ho
    exact .itemRequested ho' hi k t
  | statusUpdated ho s t =>
    obtain ⟨o', ho', -⟩ := hw _ _ ho
    exact .statusUpdated ho' s t

/-! ### Conduct -/

/-- Between two worlds orders went onward, and nothing wrong was said. -/
structure Progress (m : Menu) (l : List Deed) (w w' : World) : Prop where
  sound : w'.Sound m
  onward : w.Onward w'
  steps : ∀ d ∈ l, d.before.Onward d.after
  vouched : ∀ x ∈ Deeds.said l, w'.Vouches m x
  /-- A new status is told in a notice if at all. -/
  apart : ∀ x ∈ Deeds.sent l, x.isUpdate = false
  /-- Each change of a status takes its order a step further. -/
  climbs : ∀ n, (Deeds.changes l).countP (fun c => c.1 = n) + w.rankOf n ≤ w'.rankOf n

/-- Progress of which notices were given: they are in step with the changes of a status. -/
structure Conduct (m : Menu) (l : List Deed) (w w' : World) : Prop extends Progress m l w w' where
  told : List.Forall₂ Tells (Deeds.changes l) (Deeds.updates l)

variable {m : Menu} {l l' : List Deed} {w w' w'' : World}

namespace Deeds

/-- No order is touched. -/
def Keep (l : List Deed) : Prop := ∀ d ∈ l, d.after.orders = d.before.orders

theorem keep_nil : Keep [] := fun d hd => by cases hd

theorem Keep.append (h : Keep l) (h' : Keep l') : Keep (l ++ l') := fun d hd =>
  (List.mem_append.1 hd).elim (h d) (h' d)

theorem Keep.changes (h : Keep l) : changes l = [] :=
  List.flatMap_eq_nil_iff.2 fun d hd => Deed.changes_of_orders (h d hd)

theorem updates_of_said (h : ∀ x ∈ said l, x.isUpdate = false) : updates l = [] :=
  List.filter_eq_nil_iff.2 fun x hx => by
    rw [h x (List.mem_append_right _ hx)]
    simp

end Deeds

namespace Progress

protected theorem append (h : Progress m l w w') (h' : Progress m l' w' w'') :
    Progress m (l ++ l') w w'' where
  sound := h'.sound
  onward := h.onward.trans h'.onward
  steps d hd := (List.mem_append.1 hd).elim (h.steps d) (h'.steps d)
  vouched x hx := by
    rcases Deeds.mem_said_append.1 hx with hx | hx
    · exact (h.vouched x hx).onward h'.onward
    · exact h'.vouched x hx
  apart x hx := by
    rw [Deeds.sent_append] at hx
    exact (List.mem_append.1 hx).elim (h.apart x) (h'.apart x)
  climbs n := by
    have h₁ := h.climbs n
    have h₂ := h'.climbs n
    rw [Deeds.changes_append, List.countP_append]
    omega

/-- What leaves the orders alone is progress if it says nothing wrong. -/
theorem of_keep (hw : w.Sound m) (h : w'.orders = w.orders) (hl : Deeds.Keep l)
    (hsaid : ∀ x ∈ Deeds.said l, w.Vouches m x) (hsent : ∀ x ∈ Deeds.sent l, x.isUpdate = false) :
    Progress m l w w' where
  sound n o ho := by
    rw [h] at ho
    exact hw n o ho
  onward := .of_orders h
  steps d hd := .of_orders (hl d hd)
  vouched x hx := (hsaid x hx).onward (.of_orders h)
  apart := hsent
  climbs n := by
    unfold World.rankOf
    rw [hl.changes, h, List.countP_nil, Nat.zero_add]

/-- Writing an order over an earlier state of it is progress. -/
theorem written (hw : w.Sound m) {o new : Order} (ho : w.orders.find? new.number = some o)
    (hx : o.Onward new) (hs : new.Sound m) :
    Progress m [⟨w, .save new, w.written new⟩] w (w.written new) where
  sound := World.sound_written hw hs
  onward := World.onward_written ho hx
  steps d hd := by rw [List.mem_singleton.1 hd]; exact World.onward_written ho hx
  vouched x h := by cases h
  apart x h := by cases h
  climbs n := by
    have hself := w.find?_written new n
    show ((Deed.mk w (.save new) (w.written new)).changes ++ []).countP _ + _ ≤ _
    rw [List.append_nil, Deed.changes_written ho]
    by_cases heq : new.number = n
    · subst heq
      rw [if_pos rfl] at hself
      rw [World.rankOf_eq ho, World.rankOf_eq hself]
      have hrank : o.status.rank ≤ new.status.rank := hx.status
      show _ ≤ new.status.rank
      split
      · simpa using hrank
      · next hne =>
        have : o.status.rank ≠ new.status.rank := fun h => hne (Status.rank_inj h).symm
        simp only [decide_true, List.countP_singleton, if_true]
        omega
    · rw [if_neg heq] at hself
      unfold World.rankOf
      rw [hself]
      split <;> simp [heq]

end Progress

namespace Conduct

protected theorem append (h : Conduct m l w w') (h' : Conduct m l' w' w'') :
    Conduct m (l ++ l') w w'' where
  toProgress := h.toProgress.append h'.toProgress
  told := by
    rw [Deeds.changes_append, Deeds.updates_append]
    exact List.rel_append h.told h'.told

/-- What leaves the orders alone is of good conduct if it says nothing wrong. -/
theorem of_keep (hw : w.Sound m) (h : w'.orders = w.orders) (hl : Deeds.Keep l)
    (hsaid : ∀ x ∈ Deeds.said l, w.Vouches m x ∧ x.isUpdate = false) : Conduct m l w w' where
  toProgress := .of_keep hw h hl (fun x hx => (hsaid x hx).1)
    fun x hx => (hsaid x (List.mem_append_left _ hx)).2
  told := by
    rw [hl.changes, Deeds.updates_of_said fun x hx => (hsaid x hx).2]
    exact .nil

theorem of_orders (hw : w.Sound m) (h : w'.orders = w.orders) : Conduct m [] w w' :=
  of_keep hw h Deeds.keep_nil fun x hx => by cases hx

/-- Writing an order for the first time changes no status. -/
theorem written_new (hw : w.Sound m) {new : Order} (hnew : w.orders.find? new.number = none)
    (hs : new.Sound m) : Conduct m [⟨w, .save new, w.written new⟩] w (w.written new) := by
  have hchanges : Deeds.changes [⟨w, .save new, w.written new⟩] = [] := by
    show (Deed.mk w (.save new) (w.written new)).changes ++ [] = []
    rw [Deed.changes_written_new hnew]
    rfl
  have hother : ∀ {n o}, w.orders.find? n = some o → (w.written new).orders.find? n = some o := by
    intro n o ho
    rw [World.find?_written, if_neg, ho]
    rintro rfl
    rw [hnew] at ho
    cases ho
  have honward : w.Onward (w.written new) := fun n o ho => ⟨o, hother ho, Order.Onward.refl o⟩
  refine ⟨⟨World.sound_written hw hs, honward, fun d hd => ?_, (by rintro x ⟨⟩), (by rintro x ⟨⟩),
    fun n => ?_⟩, ?_⟩
  · rw [List.mem_singleton.1 hd]
    exact honward
  · rw [hchanges, List.countP_nil, Nat.zero_add]
    cases ho : w.orders.find? n with
    | none =>
      unfold World.rankOf
      rw [ho]
      exact Nat.zero_le _
    | some o => rw [World.rankOf_eq ho, World.rankOf_eq (hother ho)]
  · rw [hchanges]
    exact .nil

end Conduct

/-! ### Calm flows -/

/-- An action that leaves the store alone, and says nothing but such messages. -/
def Action.IsCalm (p : Envelope → Prop) : Action → Prop
  | .nextNumber | .save _ => False
  | .send x | .note x => p x
  | _ => True

theorem World.store_of_calm {p : Envelope → Prop} {w v : World} {a : Action} {r : a.Answer}
    (ha : a.IsCalm p) (h : w.Answers a r v) : v.store = w.store := by
  cases h with
  | performed =>
    cases a with
    | nextNumber | save _ => cases ha
    | take item q =>
      rcases w.take_cases item q with ⟨f, heq⟩ | ⟨s, -, heq⟩ <;> rw [heq]
      rfl
    | add item q =>
      obtain ⟨counts, heq⟩ := w.add_eq item q
      rw [heq]
    | _ => rfl
  | _ => rfl

namespace Flow

variable {α β : Type} {p : Envelope → Prop}

/-- A flow all of whose actions are calm, whatever it is answered. -/
def Calm (p : Envelope → Prop) : Flow α → Prop
  | done _ => True
  | act a next => a.IsCalm p ∧ ∀ r, (next r).Calm p
  | wait _ _ next => ∀ b, (next b).Calm p

theorem calm_ask {a : Action} (ha : a.IsCalm p) : (ask a).Calm p := ⟨ha, fun _ => trivial⟩

theorem Calm.mono {q : Envelope → Prop} {x : Flow α} (hx : x.Calm p) (hpq : ∀ e, p e → q e) :
    x.Calm q := by
  induction x with
  | done a => trivial
  | act a next ih =>
    refine ⟨?_, fun r => ih r (hx.2 r)⟩
    have ha := hx.1
    cases a with
    | send e | note e => exact hpq e ha
    | _ => exact ha
  | wait wt limit next ih => exact fun b => ih b (hx b)

theorem Calm.bind {x : Flow α} {f : α → Flow β} (hx : x.Calm p) (hf : ∀ a, (f a).Calm p) :
    (x.bind f).Calm p := by
  induction x with
  | done a => exact hf a
  | act a next ih => exact ⟨hx.1, fun y => ih y (hx.2 y)⟩
  | wait wt limit next ih => exact fun b => ih b (hx b)

theorem Calm.before {x : Flow α} (hx : x.Calm p) (tick : Nat) : (x.before tick).Calm p := by
  induction x with
  | done a => trivial
  | act a next ih => exact ⟨hx.1, fun y => ih y (hx.2 y)⟩
  | wait wt limit next ih =>
    cases limit with
    | none =>
      intro b
      cases b
      · trivial
      · exact ih true (hx true)
    | some limit =>
      intro b
      cases b
      · by_cases hl : limit ≤ tick
        · simpa [hl] using ih false (hx false)
        · simp [hl, Calm]
      · exact ih true (hx true)

/-- A calm flow leaves the store alone, and says nothing but what it may. -/
theorem Calm.surely {x : Flow α} (hx : x.Calm p) (w : World) :
    x.Surely w fun l _ w' => w'.store = w.store ∧ Deeds.Keep l ∧ ∀ e ∈ Deeds.said l, p e := by
  induction x generalizing w with
  | done a => exact surely_done ⟨rfl, Deeds.keep_nil, fun e he => by cases he⟩
  | act a next ih =>
    refine surely_act fun r v hr => (ih r (hx.2 r) v).imp ?_
    rintro l b w' ⟨hstore, horders, hsaid⟩
    have hv : v.store = w.store := World.store_of_calm hx.1 hr
    refine ⟨hstore.trans hv, List.forall_mem_cons.2 ⟨?_, horders⟩, fun e he => ?_⟩
    · show v.orders = w.orders
      unfold World.orders
      rw [hv]
    · rcases Deeds.mem_said_append (l := [⟨w, a, v⟩]).1 he with he | he
      · have hcalm := hx.1
        cases a with
        | send x | note x =>
          obtain rfl : e = x := by
            simpa [Deeds.said, Deeds.sent, Deeds.noted, Deed.sent, Deed.noted] using he
          exact hcalm
        | _ => simp [Deeds.said, Deeds.sent, Deeds.noted, Deed.sent, Deed.noted] at he
      · exact hsaid e he
  | wait wt limit next ih =>
    refine surely_wait fun b v hv => (ih b (hx b) v).imp ?_
    rintro l c w' ⟨hstore, hrest⟩
    exact ⟨hstore.trans hv.store, hrest⟩

end Flow

section Work

variable {ε α β : Type} {p : Envelope → Prop}

/-- Work all of whose actions are calm. -/
def CalmWork (p : Envelope → Prop) (x : ExceptT ε Flow α) : Prop := Flow.Calm p x.run

theorem calmWork_pure (a : α) : CalmWork p (pure a : ExceptT ε Flow α) := trivial

theorem calmWork_throw (e : ε) : CalmWork p (throw e : ExceptT ε Flow α) := trivial

theorem CalmWork.mono {q : Envelope → Prop} {x : ExceptT ε Flow α} (hx : CalmWork p x)
    (hpq : ∀ e, p e → q e) : CalmWork q x := Flow.Calm.mono hx hpq

theorem CalmWork.bind {x : ExceptT ε Flow α} {f : α → ExceptT ε Flow β} (hx : CalmWork p x)
    (hf : ∀ a, CalmWork p (f a)) : CalmWork p (x >>= f) := by
  refine Flow.Calm.bind hx fun r => ?_
  cases r with
  | ok a => exact hf a
  | error e => trivial

theorem calmWork_lift {x : Flow α} (hx : x.Calm p) :
    CalmWork p (ExceptT.lift x : ExceptT ε Flow α) :=
  Flow.Calm.bind hx fun _ => trivial

theorem CalmWork.within {x : Work α} (hx : CalmWork p x) (d : Deadline) :
    CalmWork p (Work.within d x) := by
  refine Flow.Calm.bind (Flow.Calm.before hx d.tick) fun r => ?_
  cases r <;> trivial

end Work

/-! ### Sending and noting -/

section Sending

variable {p : Envelope → Prop}

theorem calm_publish (policy : RetryPolicy) {x : Envelope} (hx : p x) :
    (publish policy x).Calm p := by
  unfold publish
  generalize policy.limit - 1 = left
  generalize 1 = i
  induction left generalizing i with
  | zero =>
    refine Flow.Calm.bind (Flow.calm_ask hx) fun r => ?_
    cases r <;> trivial
  | succ left ih =>
    refine Flow.Calm.bind (Flow.calm_ask hx) fun r => ?_
    cases r with
    | ok a => trivial
    | error f =>
      dsimp only
      split
      · refine Flow.Calm.bind (Flow.Calm.bind (Flow.calm_ask trivial) fun _ => ?_) fun _ => ih _
        exact fun _ => trivial
      · trivial

theorem calmWork_publish (policy : RetryPolicy) {x : Envelope} (hx : p x) :
    CalmWork p (Work.publish policy x) :=
  Flow.Calm.bind (calm_publish policy hx) fun _ => trivial

theorem calm_notify {x : Envelope} (hx : p x) : (notify x).Calm p := fun _ => Flow.calm_ask hx

end Sending

end Takeaway
