import Takeaway.Proofs.Conduct
import Takeaway.Proofs.Store

/-!
What is expected of whoever handles a message: good conduct, no more units missing than before, and
no message that more can follow from than from the one that is handled. Main statement: to write an
order over an earlier state of it, to tell of its new status and to ask the kitchen for items that
are kept in stock is as expected.
-/

namespace Takeaway

open World (Aside)

variable {w w' w'' : World} {m : Menu}

/-! ### Idle deeds -/

namespace Deeds

variable {l l' : List Deed}

/-- No order is touched, and nothing is said. -/
structure Idle (l : List Deed) : Prop where
  keep : Keep l
  silent : said l = []

theorem said_append_eq_nil (h : said l = []) (h' : said l' = []) : said (l ++ l') = [] := by
  refine List.eq_nil_iff_forall_not_mem.2 fun x hx => ?_
  rcases mem_said_append.1 hx with hx | hx
  · rw [h] at hx
    cases hx
  · rw [h'] at hx
    cases hx

theorem idle_nil : Idle [] := ⟨keep_nil, rfl⟩

theorem Idle.append (h : Idle l) (h' : Idle l') : Idle (l ++ l') :=
  ⟨h.keep.append h'.keep, said_append_eq_nil h.silent h'.silent⟩

/-- A single action that leaves the orders alone and sends nothing. -/
theorem idle_one {v : World} {a : Action} (h : v.orders = w.orders)
    (hs : (Deed.mk w a v).sent = []) (hn : (Deed.mk w a v).noted = []) : Idle [⟨w, a, v⟩] where
  keep d hd := by rw [List.mem_singleton.1 hd]; exact h
  silent := by
    show ((Deed.mk w a v).sent ++ []) ++ ((Deed.mk w a v).noted ++ []) = []
    rw [hs, hn]
    rfl

end Deeds

theorem Conduct.of_idle {l : List Deed} (hw : w.Sound m) (h : w'.orders = w.orders)
    (hl : Deeds.Idle l) : Conduct m l w w' :=
  .of_keep hw h hl.keep fun x hx => by rw [hl.silent] at hx; cases hx

/-! ### Duties -/

/-- How much may follow from a message that tells of an event: what is said when it is handled
weighs less, unless some units were packed. What is asked for from outside weighs most. -/
def Event.weight : Event → Nat
  | orderPlaced | sweepRequested | orderCollected => 3
  | itemRequested => 2
  | itemAdded | statusUpdated => 0

/-- The weight of a message; nothing follows from one that cannot be read. -/
def Envelope.weight (x : Envelope) : Nat :=
  match x.event with
  | .ok v => v.weight
  | .error _ => 0

theorem Envelope.weight_of_event {x : Envelope} {v : Event} (h : x.event = .ok v) :
    x.weight = v.weight := by
  unfold weight
  rw [h]

/-- Good conduct that leaves no more units missing, with messages of at most the given weight. -/
structure Duty (m : Menu) (k : Nat) (l : List Deed) (w w' : World) : Prop
    extends Conduct m l w w' where
  lacking : w'.lacking ≤ w.lacking
  light : ∀ x ∈ Deeds.said l, x.weight ≤ k

/-- Duty in which nothing is said unless some units were packed for good. -/
structure Restocking (m : Menu) (l : List Deed) (w w' : World) : Prop
    extends Duty m 2 l w w' where
  earned : Deeds.said l = [] ∨ w'.lacking < w.lacking

variable {k : Nat} {l l' : List Deed}

namespace Duty

protected theorem append (h : Duty m k l w w') (h' : Duty m k l' w' w'') :
    Duty m k (l ++ l') w w'' where
  toConduct := h.toConduct.append h'.toConduct
  lacking := h'.lacking.trans h.lacking
  light x hx := (Deeds.mem_said_append.1 hx).elim (h.light x) (h'.light x)

/-- What leaves the orders alone is as expected if it says nothing wrong. -/
theorem of_keep (hw : w.Sound m) (h : w'.orders = w.orders) (hl : Deeds.Keep l)
    (hsaid : ∀ x ∈ Deeds.said l, w.Vouches m x ∧ x.isUpdate = false ∧ x.weight ≤ k) :
    Duty m k l w w' where
  toConduct := .of_keep hw h hl fun x hx => ⟨(hsaid x hx).1, (hsaid x hx).2.1⟩
  lacking := by unfold World.lacking; rw [h]
  light x hx := (hsaid x hx).2.2

theorem of_idle (hw : w.Sound m) (h : w'.orders = w.orders) (hl : Deeds.Idle l) :
    Duty m k l w w' :=
  of_keep hw h hl.keep fun x hx => by rw [hl.silent] at hx; cases hx

end Duty

namespace Restocking

protected theorem append (h : Restocking m l w w') (h' : Restocking m l' w' w'') :
    Restocking m (l ++ l') w w'' where
  toDuty := h.toDuty.append h'.toDuty
  earned := by
    have h₁ := h.lacking
    have h₂ := h'.lacking
    rcases h.earned with hl | hlt
    · rcases h'.earned with hl' | hlt
      · exact .inl (Deeds.said_append_eq_nil hl hl')
      · exact .inr (by omega)
    · exact .inr (by omega)

theorem of_idle (hw : w.Sound m) (h : w'.orders = w.orders) (hl : Deeds.Idle l) :
    Restocking m l w w' := ⟨.of_idle hw h hl, .inl hl.silent⟩

end Restocking

theorem World.Sound.of_orders (hw : w.Sound m) (h : w'.orders = w.orders) : w'.Sound m := by
  intro n o ho
  rw [h] at ho
  exact hw n o ho

/-! ### Calls of the store -/

section Store

theorem surely_search {v : World} (hv : Aside 0 w v) (f : OrderFilter) :
    (Flow.ask (.search f)).Surely v fun l r w' =>
      Deeds.Idle l ∧ Aside 0 w w' ∧ ∀ os, r = .ok os → w.store.find f = .ok os := by
  refine Flow.surely_ask fun r u hr => ?_
  have hidle := Deeds.idle_one (w := v) (v := v) (a := .search f) rfl rfl rfl
  cases hr with
  | performed =>
    refine ⟨hidle, hv, fun os h => ?_⟩
    rw [← hv.store]
    exact h
  | notSearched => exact ⟨hidle, hv, (by rintro _ ⟨⟩)⟩

theorem surely_fetch {v : World} (hv : Aside 0 w v) (n : OrderNumber) :
    (Flow.ask (.fetch n)).Surely v fun l r w' =>
      Deeds.Idle l ∧ Aside 0 w w' ∧ ∀ found, r = .ok found → found = w'.orders.find? n := by
  refine Flow.surely_ask fun r u hr => ?_
  have hidle := Deeds.idle_one (w := v) (v := v) (a := .fetch n) rfl rfl rfl
  cases hr with
  | performed => exact ⟨hidle, hv, fun found h => ScriptedStore.get?_ok h⟩
  | notFetched => exact ⟨hidle, hv, (by rintro _ ⟨⟩)⟩

/-- An order is written, or nothing is done. -/
theorem surely_save {v : World} (hv : Aside 0 w v) (o : Order) :
    (Flow.ask (.save o)).Surely v fun l r w' =>
      Deeds.Idle l ∧ Aside 0 w w' ∧ (∃ f, r = .error f) ∨
        ∃ v, Aside 0 w v ∧ l = [⟨v, .save o, v.written o⟩] ∧ w' = v.written o ∧ r = .ok () := by
  refine Flow.surely_ask fun r u hr => ?_
  have hidle := Deeds.idle_one (w := v) (v := v) (a := .save o) rfl rfl rfl
  cases hr with
  | performed =>
    rcases v.save_cases o with ⟨f, heq⟩ | heq <;> rw [heq]
    · exact .inl ⟨hidle, hv, f, rfl⟩
    · exact .inr ⟨v, hv, rfl, rfl, rfl⟩
  | notSaved o f => exact .inl ⟨hidle, hv, f, rfl⟩

/-- No order has the number that is given out. -/
theorem surely_nextNumber (hw : w.Tidy) {v : World} (hv : Aside 0 w v) :
    (Flow.ask .nextNumber).Surely v fun l r w' =>
      Deeds.Idle l ∧ w'.orders = w.orders ∧ ∀ n, r = .ok n → w.orders.find? n = none := by
  refine Flow.surely_ask fun r u hr => ?_
  have hidle : ∀ u : World, u.orders = v.orders → Deeds.Idle [⟨v, .nextNumber, u⟩] := fun u hu =>
    Deeds.idle_one hu rfl rfl
  cases hr with
  | performed =>
    rcases v.nextNumber_cases with ⟨f, heq⟩ | heq <;> rw [heq]
    · exact ⟨hidle v rfl, hv.orders, (by rintro _ ⟨⟩)⟩
    · refine ⟨hidle v.numberGiven rfl, hv.orders, ?_⟩
      rintro _ ⟨⟩
      refine Option.eq_none_iff_forall_ne_some.2 fun o ho => ?_
      have hle : v.store.store.last + 1 ≤ w.store.store.last := (hw.numbered _ o ho).2
      rw [hv.store] at hle
      omega
  | noNumber f => exact ⟨hidle v rfl, hv.orders, (by rintro _ ⟨⟩)⟩

variable {α : Type} {a : Action} {f : a.Answer → Except Outage α}
  {p : List Deed → Except Outage α → World → Prop}

theorem idle_lag (w : World) (c : Store.Call) : Deeds.Idle [⟨w, .lag c, w⟩] :=
  Deeds.idle_one rfl rfl rfl

/-- A call of the store waits before it acts. -/
theorem surely_call (c : Store.Call)
    (h : ∀ v, Aside 0 w v → (Flow.ask a).Surely v fun l r w' => p l (f r) w') :
    Flow.Surely (do lagOf c; return f (← Flow.ask a)) w fun l r w' =>
      ∃ l₁ l₂, Deeds.Idle l₁ ∧ l = l₁ ++ l₂ ∧ p l₂ r w' := by
  refine Flow.surely_act (a := .lag c) fun s v hv => ?_
  cases hv
  refine Flow.surely_wait fun b u hu => ?_
  refine Flow.Surely.bind (f := fun r => .done (f r)) (h u hu) fun l r w' hr =>
    Flow.surely_done ?_
  exact ⟨_, l, idle_lag w c, by rw [List.append_nil]; rfl, hr⟩

/-- Under a deadline it may not come to the action. -/
theorem surely_within (d : Deadline) (c : Store.Call)
    (h : ∀ v, Aside 0 w v → (Flow.ask a).Surely v fun l r w' => p l (f r) w') :
    WorkSurely (Work.within d (Work.ofStore do lagOf c; return f (← Flow.ask a))) w fun l r w' =>
      (Deeds.Idle l ∧ Aside 0 w w' ∧ ∃ fault, r = .error fault) ∨
        ∃ l₁ l₂ x, Deeds.Idle l₁ ∧ l = l₁ ++ l₂ ∧ p l₂ x w' ∧ r = x.mapError Fault.ofOutage := by
  refine Flow.surely_act (a := .lag c) fun s v hv => ?_
  cases hv
  refine Flow.surely_wait fun b u hu => ?_
  cases b with
  | false => exact Flow.surely_done (.inl ⟨idle_lag w c, hu, _, rfl⟩)
  | true =>
    refine Flow.Surely.bind (f := fun r => .done ((f r).mapError Fault.ofOutage)) (h u hu)
      fun l r w' hr => Flow.surely_done (.inr ?_)
    exact ⟨_, l, f r, idle_lag w c, by rw [List.append_nil]; rfl, hr, rfl⟩

end Store

/-! ### Writing an order back -/

/-- After an order was written nothing is done but to tell of its status, if that is new, and to
ask the kitchen for items. -/
structure Reports (n : OrderNumber) (old new : Status) (items : List Item) (l : List Deed)
    (w w' : World) : Prop where
  orders : w'.orders = w.orders
  keep : Deeds.Keep l
  told : List.Forall₂ Tells (if new = old then [] else [(n, new)]) (Deeds.updates l)
  apart : ∀ x ∈ Deeds.sent l, x.isUpdate = false
  said : ∀ x ∈ Deeds.said l, (∃ time, x = .statusUpdated n new time) ∨
    ∃ i ∈ items, ∃ key time, x = .itemRequested n i key time

/-- **Writing an order over an earlier state of it and telling of that is as expected.** -/
theorem Duty.of_written (hw : w.Sound m) {o new : Order}
    (ho : w.orders.find? new.number = some o) (hx : o.Onward new) (hs : new.Sound m)
    {items : List Item} (hitems : ∀ i ∈ items, m.isInstant i.name = .ok false)
    (h : Reports new.number o.status new.status items l (w.written new) w')
    (hk : ∀ x ∈ Deeds.said l, x.weight ≤ k) :
    Duty m k (⟨w, .save new, w.written new⟩ :: l) w w' := by
  have hwritten : Progress m [⟨w, .save new, w.written new⟩] w (w.written new) :=
    Progress.written hw ho hx hs
  have hself := w.find?_written new new.number
  rw [if_pos rfl] at hself
  have hrest : Progress m l (w.written new) w' := by
    refine Progress.of_keep hwritten.sound h.orders h.keep (fun x hx => ?_) h.apart
    rcases h.said x hx with ⟨time, rfl⟩ | ⟨i, hi, key, time, rfl⟩
    · exact .statusUpdated hself _ time
    · exact .itemRequested hself (hitems i hi) key time
  refine ⟨⟨hwritten.append hrest, ?_⟩, ?_, ?_⟩
  · have hchanges : Deeds.changes (⟨w, .save new, w.written new⟩ :: l) =
        if new.status = o.status then [] else [(new.number, new.status)] := by
      show (Deed.mk w (.save new) (w.written new)).changes ++ Deeds.changes l = _
      rw [h.keep.changes, List.append_nil, Deed.changes_written ho]
    rw [hchanges]
    exact h.told
  · have h₁ := World.lacking_written (w := w) ho
    have h₂ := hx.lacking_le
    have h₃ : w'.lacking = (w.written new).lacking := by unfold World.lacking; rw [h.orders]
    omega
  · exact hk

namespace Reports

variable {n : OrderNumber} {old new : Status} {items : List Item}

/-- The kitchen may be asked for items after the new status was told. -/
theorem append_calm (h : Reports n old new [] l w w') (ho : w''.orders = w'.orders)
    (hl : Deeds.Keep l')
    (hsaid : ∀ x ∈ Deeds.said l', ∃ i ∈ items, ∃ key time, x = .itemRequested n i key time) :
    Reports n old new items (l ++ l') w w'' where
  orders := ho.trans h.orders
  keep := h.keep.append hl
  told := by
    have hnone : Deeds.updates l' = [] := Deeds.updates_of_said fun x hx => by
      obtain ⟨i, -, key, time, rfl⟩ := hsaid x hx
      exact Envelope.isUpdate_of_event (Envelope.event_itemRequested ..)
    rw [Deeds.updates_append, hnone, List.append_nil]
    exact h.told
  apart x hx := by
    rw [Deeds.sent_append] at hx
    rcases List.mem_append.1 hx with hx | hx
    · exact h.apart x hx
    · obtain ⟨i, -, key, time, rfl⟩ := hsaid x (List.mem_append_left _ hx)
      exact Envelope.isUpdate_of_event (Envelope.event_itemRequested ..)
  said x hx := by
    rcases Deeds.mem_said_append.1 hx with hx | hx
    · rcases h.said x hx with htold | ⟨i, hi, -⟩
      · exact .inl htold
      · cases hi
    · exact .inr (hsaid x hx)

/-- Looking at the clock comes first. -/
theorem of_idle (hl : Deeds.Idle l) (h : Reports n old new items l' w w') :
    Reports n old new items (l ++ l') w w' where
  orders := h.orders
  keep := hl.keep.append h.keep
  told := by
    have hnone : Deeds.updates l = [] := Deeds.updates_of_said fun x hx => by
      rw [hl.silent] at hx
      cases hx
    rw [Deeds.updates_append, hnone]
    exact h.told
  apart x hx := by
    rw [Deeds.sent_append] at hx
    rcases List.mem_append.1 hx with hx | hx
    · have : x ∈ Deeds.said l := List.mem_append_left _ hx
      rw [hl.silent] at this
      cases this
    · exact h.apart x hx
  said x hx := by
    rcases Deeds.mem_said_append.1 hx with hx | hx
    · rw [hl.silent] at hx
      cases hx
    · exact h.said x hx

theorem none (w : World) (n : OrderNumber) (s : Status) : Reports n s s [] [] w w :=
  ⟨rfl, Deeds.keep_nil, by rw [if_pos rfl]; exact .nil, (by rintro x ⟨⟩), (by rintro x ⟨⟩)⟩

end Reports

/-- Telling of a new status. -/
theorem surely_tell (n : OrderNumber) {old new : Status} (hne : new ≠ old) (time : Timestamp) :
    (notify (.statusUpdated n new time)).Surely w fun l _ w' => Reports n old new [] l w w' := by
  refine Flow.surely_wait fun b u hu => ?_
  refine Flow.surely_ask fun r v hv => ?_
  cases hv
  refine ⟨hu.orders, ?_, ?_, (by rintro x ⟨⟩), fun x hx => .inl ⟨time, List.mem_singleton.1 hx⟩⟩
  · exact fun d hd => by rw [List.mem_singleton.1 hd]; rfl
  · have hupdates : Deeds.updates [⟨u, .note (.statusUpdated n new time),
        (u.perform (.note (.statusUpdated n new time))).2⟩] = [.statusUpdated n new time] := by
      show List.filter _ [Envelope.statusUpdated n new time] = _
      rw [List.filter_cons, Envelope.isUpdate_of_event (Envelope.event_statusUpdated ..)]
      rfl
    rw [if_neg hne, hupdates]
    exact .cons ⟨time, rfl⟩ .nil

theorem surely_clock : (Flow.ask .clock).Surely w fun l _ w' => Deeds.Idle l ∧ w' = w := by
  refine Flow.surely_ask fun r v hv => ?_
  cases hv
  exact ⟨Deeds.idle_one rfl rfl rfl, rfl⟩

end Takeaway
