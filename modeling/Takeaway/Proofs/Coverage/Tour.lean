import Takeaway.Proofs.Coverage.Visits

/-!
Orders that are visited one after the other. Main statements: a sweep visits all open orders in the
order of their numbers, whichever requests fail, and reports the last failure; covering a new order
visits it if it is open; and visits to the same orders leave the same orders and the same stock,
however sending turned out.
-/

namespace Takeaway

open World (Orderly)

variable {w w₁ w₂ w' : World} {m : Menu}

/-! ### Worlds that match -/

/-- The orders of two worlds are the same, but for the times of their last changes, and so is the
stock. -/
structure World.Matches (w w' : World) : Prop where
  keys : w'.orders.keys = w.orders.keys
  orders : ∀ n o, w.orders.find? n = some o → ∃ time, w'.orders.find? n = some (o.touch time)
  stock : w'.stock = w.stock

/-- The same lines make the same order, but for the time of the last change. -/
theorem Order.Gains.touched {o o₁ o₂ : Order} {lines : List Item} (h₁ : o.Gains lines o₁)
    (h₂ : o.Gains lines o₂) : ∃ time, o₂ = o₁.touch time := by
  obtain ⟨t₁, rfl⟩ := h₁
  obtain ⟨t₂, rfl⟩ := h₂
  by_cases hl : lines = []
  · exact ⟨o.changedAt, by simp [hl, Order.touch]⟩
  · exact ⟨t₂, by simp [hl, Order.touch]⟩

/-- Worlds match in which the same was packed for each order, and the same stock is left. -/
theorem World.Logs.matches {g : OrderNumber → List Item} (h₁ : w.Logs g w₁) (h₂ : w.Logs g w₂)
    (hstock : w₂.stock = w₁.stock) : w₁.Matches w₂ where
  keys := h₂.keys.trans h₁.keys.symm
  orders n o₁ ho₁ := by
    obtain ⟨o, ho⟩ : ∃ o, w.orders.find? n = some o := by
      rw [← Option.ne_none_iff_exists', Ne, ← h₁.find?_eq_none, ho₁]
      simp
    obtain ⟨o₁', ho₁', hg₁⟩ := h₁.gains n o ho
    obtain ⟨o₂, ho₂, hg₂⟩ := h₂.gains n o ho
    rw [ho₁] at ho₁'
    cases ho₁'
    obtain ⟨time, rfl⟩ := hg₁.touched hg₂
    exact ⟨time, ho₂⟩
  stock := hstock

/-! ### Open orders -/

namespace World

/-- The open orders, in the order of their numbers. -/
def waiting (w : World) : List Order := w.orders.values.filter fun o => o.status.isOpen

/-- The order of a number, if it is open. -/
def waitingAt (w : World) (n : OrderNumber) : List Order :=
  (w.orders.find? n).toList.filter fun o => o.status.isOpen

theorem waiting_eq (w : World) : w.orders.values.filter OrderFilter.waiting.accepts = w.waiting :=
  congrArg (w.orders.values.filter ·) (funext OrderFilter.accepts_waiting)

theorem Unmoved.waiting (h : w.Unmoved w') : w'.waiting = w.waiting := by
  unfold World.waiting
  rw [h.orders]

theorem Unmoved.waitingAt (h : w.Unmoved w') (n : OrderNumber) :
    w'.waitingAt n = w.waitingAt n := by
  unfold World.waitingAt
  rw [h.orders]

theorem Orderly.mem_waiting (hw : w.Orderly m) {o : Order} :
    o ∈ w.waiting ↔ w.orders.find? o.number = some o ∧ o.status.isOpen = true := by
  unfold waiting
  rw [List.mem_filter, hw.mem_values]

theorem Orderly.waiting_nodup (hw : w.Orderly m) : (w.waiting.map fun o => o.number).Nodup :=
  hw.numbers_nodup.sublist (List.filter_sublist.map _)

end World

namespace Coverage

/-! ### Visits -/

/-- The orders were visited one after the other, with these deadlines: each was packed and written
back, and the kitchen was asked for the rest up to the first request of the order that failed. -/
structure Visited (m : Menu) (d : OrderNumber → Deadline) (os : List Order) (w : World)
    (vs : List Visit) (s : Replies) (l : List Deed) (w' : World) : Prop where
  servings : vs.map (·.toServing) = servings m os w.stock
  answers : s = vs.flatMap (·.answers)
  sent : Deeds.sent l = vs.flatMap (·.messages)
  saved : Deeds.saved l = (Coverage.servings m os w.stock).flatMap (·.saves)
  told : List.Forall₂ Tells ((Coverage.servings m os w.stock).flatMap (·.news)) (Deeds.noted l)
  attempted : ∀ v ∈ vs, Attempts (d v.order.number) v.order.number v.filling.requests v.sent
    v.answers v.messages v.fault
  logs : w.Logs (fun n => (Coverage.servings m os w.stock).flatMap (Serving.linesFor n)) w'
  stock : w'.stock = emptied m os w.stock

variable {c : Coverage} {d : OrderNumber → Deadline} {o : Order} {os os' : List Order}
  {vs vs' : List Visit} {s s' : Replies} {l l' : List Deed}

namespace Visited

/-- Where no order is visited, nothing happens. -/
theorem none (hl : Deeds.Still l) : Visited m d [] w [] [] l w where
  servings := rfl
  answers := rfl
  sent := hl.sent
  saved := hl.saved
  told := by rw [hl.noted]; exact .nil
  attempted := by simp
  logs := World.Logs.of_orders rfl
  stock := rfl

/-- A visit to a single order. -/
theorem one {v : Visit} {r : Except Fault Outcome} (hsound : o.Sound m)
    (ho : w.orders.find? o.number = some o)
    (hv : v.toServing = ⟨o, filled m o.names o w.stock⟩)
    (h : v.Went (d o.number) v.saves (w.covered m o.names o) s l r w') :
    Visited m d [o] w [v] s l w' := by
  have hservings : Coverage.servings m [o] w.stock = [v.toServing] := by
    rw [hv]
    rfl
  have hnumber : v.order.number = o.number := by rw [hv]
  constructor
  case servings => exact hservings.symm
  case answers => rw [h.answers, List.flatMap_singleton]
  case sent => rw [h.sent, List.flatMap_singleton]
  case saved => rw [h.saved, hservings, List.flatMap_singleton]
  case told =>
    rw [hservings, List.flatMap_singleton]
    exact h.told
  case attempted =>
    intro x hx
    rw [List.mem_singleton.1 hx, hnumber]
    have hattempted := h.attempted
    rwa [hnumber] at hattempted
  case logs =>
    refine ((World.logs_covered o.names ho).unmoved h.left).congr fun n _ _ => ?_
    rw [hservings, List.flatMap_singleton, hv]
    rfl
  case stock => exact h.left.stock.trans (World.covered_stock o.names hsound)

/-- **Visits to some orders and then to others** are visits to all of them. -/
theorem append (h : Visited m d os w vs s l w₁) (h' : Visited m d os' w₁ vs' s' l' w') :
    Visited m d (os ++ os') w (vs ++ vs') (s ++ s') (l ++ l') w' := by
  have hservings : Coverage.servings m (os ++ os') w.stock =
      Coverage.servings m os w.stock ++ Coverage.servings m os' w₁.stock := by
    rw [servings_append, h.stock]
  constructor
  case servings => rw [List.map_append, h.servings, h'.servings, hservings]
  case answers => rw [List.flatMap_append, h.answers, h'.answers]
  case sent => rw [List.flatMap_append, Deeds.sent_append, h.sent, h'.sent]
  case saved => rw [hservings, List.flatMap_append, Deeds.saved_append, h.saved, h'.saved]
  case told =>
    rw [hservings, List.flatMap_append, Deeds.noted_append]
    exact List.rel_append h.told h'.told
  case attempted => exact List.forall_mem_append.2 ⟨h.attempted, h'.attempted⟩
  case logs =>
    refine (h.logs.trans h'.logs).congr fun n _ _ => ?_
    rw [hservings, List.flatMap_append]
  case stock => rw [h'.stock, h.stock, emptied_append]

theorem after_still (h : Visited m d os w vs s l' w') (hl : Deeds.Still l) :
    Visited m d os w vs s (l ++ l') w' := (Visited.none hl).append h

theorem then_still (h : Visited m d os w vs s l w') (hl : Deeds.Still l') :
    Visited m d os w vs s (l ++ l') w' := by
  have hall := h.append (Visited.none (d := d) hl)
  rwa [List.append_nil, List.append_nil, List.append_nil] at hall

/-- It does not matter where visits begin, as far as that is not orders or stock. -/
theorem of_unmoved {u : World} (h : Visited m d os u vs s l w') (hu : w.Unmoved u) :
    Visited m d os w vs s l w' := by
  obtain ⟨hservings, hanswers, hsent, hsaved, htold, hattempted, hlogs, hstock⟩ := h
  rw [hu.stock] at hservings hsaved htold hlogs hstock
  exact ⟨hservings, hanswers, hsent, hsaved, htold, hattempted, hlogs.of_unmoved hu, hstock⟩

/-- The visits are to the orders. -/
theorem orders (h : Visited m d os w vs s l w') : vs.map (·.order) = os := by
  have hmap := congrArg (List.map (·.order)) h.servings
  rwa [List.map_map, map_order_servings] at hmap

theorem outcomes (h : Visited m d os w vs s l w') :
    vs.map (·.outcome) = (Coverage.servings m os w.stock).map (·.outcome) := by
  rw [← h.servings, List.map_map]
  rfl

/-- The order of a visit is packed from what the visits before it left. -/
theorem filling {front behind : List Visit} {v : Visit}
    (h : Visited m d os w (front ++ v :: behind) s l w') : v.filling =
      filled m v.order.names v.order (emptied m (front.map (·.order)) w.stock) := by
  have hservings := h.servings
  rw [← h.orders, List.map_append, List.map_append, servings_append] at hservings
  have hlength : (front.map (·.toServing)).length =
      (Coverage.servings m (front.map (·.order)) w.stock).length := by
    have horders := map_order_servings m (front.map (·.order)) w.stock
    simpa using (congrArg List.length horders).symm
  obtain ⟨-, hrest⟩ := List.append_inj hservings hlength
  exact congrArg (·.filling) (List.cons.inj hrest).1

/-- What was packed for the order of a visit is stored, whatever came of the requests. -/
theorem given (h : Visited m d os w vs s l w') (hnodup : (os.map fun o => o.number).Nodup)
    {v : Visit} (ho : w.orders.find? v.order.number = some v.order) (hv : v ∈ vs) :
    ∃ o', w'.orders.find? v.order.number = some o' ∧ v.order.Gains v.filling.packed o' := by
  obtain ⟨o', ho', hgains⟩ := h.logs.gains _ _ ho
  have hserving : v.toServing ∈ Coverage.servings m os w.stock := by
    rw [← h.servings]
    exact List.mem_map_of_mem hv
  rw [← map_order_servings m os w.stock, List.map_map] at hnodup
  rw [flatMap_linesFor hnodup hserving] at hgains
  exact ⟨o', ho', hgains⟩

/-- Orders that are not visited stay what they are. -/
theorem others (h : Visited m d os w vs s l w') {n : OrderNumber}
    (hn : ∀ v ∈ vs, v.order.number ≠ n) : w'.orders.find? n = w.orders.find? n := by
  have hnone : (Coverage.servings m os w.stock).flatMap (Serving.linesFor n) = [] := by
    rw [← h.servings]
    apply flatMap_linesFor_of_ne
    simpa using hn
  cases ho : w.orders.find? n with
  | none => exact h.logs.find?_eq_none.2 ho
  | some o =>
    obtain ⟨o', ho', hgains⟩ := h.logs.gains n o ho
    rw [hnone] at hgains
    rw [ho', hgains.eq_of_nil]

/-- **Visits to the same orders leave the same.** -/
theorem same {d' : OrderNumber → Deadline} (h₁ : Visited m d os w vs s l w₁)
    (h₂ : Visited m d' os w vs' s' l' w₂) : w₁.Matches w₂ :=
  h₁.logs.matches h₂.logs (h₂.stock.trans h₁.stock.symm)

end Visited

/-! ### One order -/

/-- A pass over an open order with all that it asks for is a visit, and so is one with what it
misses. -/
theorem anyhow_cover_visited (hw : w.Orderly c.menu) (ha : w.store.store.answers = true)
    (ho : w.orders.find? o.number = some o) {items : List String}
    (hitems : items = o.names ∨ items = o.missingItems.map (·.name)) :
    WorkAnyhow (c.cover (d o.number) o items) w fun s l r w' => ∃ v : Visit,
      Visited c.menu d [o] w [v] s l w' ∧ v.order = o ∧ r = unlessFault v.fault v.outcome ∧
        (w.covered c.menu o.names o).Unmoved w' := by
  have hsound := (hw.sound _ _ ho).1
  have hreq : ∀ i ∈ items, o.requests i = true := by
    intro i hi
    rcases hitems with rfl | rfl
    · exact Order.requests_iff_mem_names.2 hi
    · exact hsound.requests_of_short (hsound.mem_missing_names.1 hi)
  have hfilled : filled c.menu items o w.stock = filled c.menu o.names o w.stock := by
    rcases hitems with rfl | rfl
    · rfl
    · exact filled_missing hsound w.stock
  refine (anyhow_cover (d o.number) hw ha ho hreq).imp ?_
  rintro s l r w' ⟨v, hv, hwent⟩
  unfold World.covered at hwent
  rw [hfilled] at hv hwent
  exact ⟨v, Visited.one hsound ho hv hwent, by rw [hv], hwent.result, hwent.left⟩

/-- An order that is covered as a new one is looked up first. -/
theorem anyhow_coverNew_open (hw : w.Orderly c.menu) (ha : w.store.store.answers = true)
    (ho : w.orders.find? o.number = some o) (hopen : o.status.isOpen = true) :
    WorkAnyhow (c.coverNew (d o.number) o.number) w fun s l r w' => ∃ v : Visit,
      Visited c.menu d [o] w [v] s l w' ∧ v.order = o ∧ r = unlessFault v.fault v.outcome ∧
        (w.covered c.menu o.names o).Unmoved w' := by
  unfold coverNew
  refine WorkAnyhow.bind (anyhow_load hw o.number (d o.number)) ?_ ?_
  · rintro _ l₁ o' w ⟨rfl, h₁, rfl, hload⟩
    obtain ⟨-, ho'⟩ := (hload o').1 rfl
    rw [ho] at ho'
    cases ho'
    rw [if_pos hopen]
    refine (anyhow_cover_visited hw ha ho (.inl rfl)).imp ?_
    rintro s l₂ r w' ⟨v, hv, hrest⟩
    exact ⟨v, hv.after_still h₁, hrest⟩
  · rintro _ l f w ⟨-, -, rfl, hload⟩
    cases (hload o).2 ⟨ha, ho⟩

/-- **Covering a new order visits it if it is open**, and does nothing if not. -/
theorem anyhow_coverNew (hw : w.Orderly c.menu) (ha : w.store.store.answers = true)
    (n : OrderNumber) :
    WorkAnyhow (c.coverNew (d n) n) w fun s l r w' => ∃ vs,
      Visited c.menu d (w.waitingAt n) w vs s l w' ∧
        ∀ v ∈ vs, r = unlessFault v.fault v.outcome := by
  by_cases hopen : ∃ o, w.orders.find? n = some o ∧ o.status.isOpen = true
  · obtain ⟨o, ho, hopen⟩ := hopen
    obtain ⟨-, rfl⟩ := hw.sound n o ho
    have hat : w.waitingAt o.number = [o] := by
      simp [World.waitingAt, ho, hopen]
    rw [hat]
    refine (anyhow_coverNew_open hw ha ho hopen).imp ?_
    rintro s l r w' ⟨v, hv, -, hr, -⟩
    exact ⟨[v], hv, by simpa using hr⟩
  · have hat : w.waitingAt n = [] := by
      unfold World.waitingAt
      cases ho : w.orders.find? n with
      | none => rfl
      | some o => simpa using fun h => hopen ⟨o, ho, h⟩
    rw [hat]
    unfold coverNew
    refine WorkAnyhow.bind (anyhow_load hw n (d n)) ?_ ?_
    · rintro _ l₁ o w ⟨rfl, h₁, rfl, hload⟩
      have hclosed : ¬ o.status.isOpen = true := fun h => hopen ⟨o, ((hload o).1 rfl).2, h⟩
      rw [if_neg hclosed]
      apply workAnyhow_pure
      exact ⟨[], (Visited.none h₁).then_still Deeds.still_nil, by simp⟩
    · rintro _ l f w ⟨rfl, hl, rfl, -⟩
      exact ⟨[], Visited.none hl, by simp⟩

/-! ### Several orders -/

/-- Orders to be visited: they are stored, each under a number of its own, and open. -/
structure Due (os : List Order) (w : World) : Prop where
  stored : ∀ o ∈ os, w.orders.find? o.number = some o
  isOpen : ∀ o ∈ os, o.status.isOpen = true
  nodup : (os.map fun o => o.number).Nodup

theorem due_waiting (hw : w.Orderly m) : Due w.waiting w where
  stored _ ho := (hw.mem_waiting.1 ho).1
  isOpen _ ho := (hw.mem_waiting.1 ho).2
  nodup := hw.waiting_nodup

/-- A visit to the first order leaves the others as they are. -/
theorem Due.tail (h : Due (o :: os) w) (hw : w.Orderly m)
    (hw₁ : (w.covered m o.names o).Unmoved w₁) : Due os w₁ := by
  obtain ⟨ho, hstored⟩ := List.forall_mem_cons.1 h.stored
  obtain ⟨hnot, hnodup⟩ := List.nodup_cons.1 h.nodup
  exact ⟨World.find?_of_covered _ hw ho hw₁.orders hnot hstored,
    (List.forall_mem_cons.1 h.isOpen).2, hnodup⟩

/-- After a visit the next one can be made. -/
theorem Due.next (h : Due (o :: os) w) (hw : w.Orderly m) (ha : w.store.store.answers = true)
    (hw₁ : (w.covered m o.names o).Unmoved w₁) :
    w₁.Orderly m ∧ w₁.store.store.answers = true := by
  have hpass := World.pass_covered o.names hw (List.forall_mem_cons.1 h.stored).1
  exact ⟨hw₁.orderly hpass.orderly, hw₁.answers (hpass.kept.answers.trans ha)⟩

/-- An open order misses something. -/
theorem Due.missing (h : Due (o :: os) w) (hw : w.Orderly m) :
    (o.missingItems.map (·.name)).isEmpty = false := by
  have hsound := (hw.sound _ _ (List.forall_mem_cons.1 h.stored).1).1
  obtain ⟨i, hi⟩ := hsound.isOpen_iff_short.1 (List.forall_mem_cons.1 h.isOpen).1
  have hmem := hsound.mem_missing_names.2 hi
  rw [List.isEmpty_eq_false_iff]
  exact List.ne_nil_of_mem hmem

/-- **All orders are visited, whichever requests fail.** -/
theorem anyhow_coverEach (d : Deadline) (hw : w.Orderly c.menu)
    (ha : w.store.store.answers = true) (hos : Due os w) :
    (c.coverEach d os).Anyhow w fun s l r w' => ∃ vs,
      Visited c.menu (fun _ => d) os w vs s l w' ∧
        r = ((vs.filter fun v => v.fault.isNone).map (·.outcome),
          (vs.filterMap (·.fault)).getLast?) := by
  induction os generalizing w with
  | nil => exact Flow.anyhow_done ⟨[], Visited.none Deeds.still_nil, rfl⟩
  | cons o r ih =>
    have ho := (List.forall_mem_cons.1 hos.stored).1
    unfold coverEach
    dsimp only
    rw [hos.missing hw, if_neg Bool.false_ne_true]
    have hcover : Flow.Anyhow _ w _ :=
      anyhow_cover_visited (d := fun _ => d) hw ha ho (.inr rfl)
    refine Flow.Anyhow.bind hcover ?_
    rintro s₁ l₁ res w₁ ⟨v, hv, -, hres, hw₁⟩
    obtain ⟨horderly, hanswers⟩ := hos.next hw ha hw₁
    have hnext := ih horderly hanswers (hos.tail hw hw₁)
    cases hf : v.fault with
    | none =>
      rw [hres, hf]
      refine Flow.Anyhow.bind hnext ?_
      rintro s₂ l₂ _ w₂ ⟨vs, hvs, rfl⟩
      apply Flow.anyhow_done
      rw [List.append_nil, List.append_nil]
      exact ⟨v :: vs, hv.append hvs, by simp [hf]⟩
    | some f =>
      rw [hres, hf]
      refine Flow.Anyhow.bind hnext ?_
      rintro s₂ l₂ _ w₂ ⟨vs, hvs, rfl⟩
      apply Flow.anyhow_done
      rw [List.append_nil, List.append_nil]
      exact ⟨v :: vs, hv.append hvs, by simp [hf, List.getLast?_cons]⟩

/-- **A sweep visits all open orders** in the order of their numbers, and reports the last
failure. -/
theorem anyhow_sweep (d : Deadline) (hw : w.Orderly c.menu)
    (ha : w.store.store.answers = true) :
    WorkAnyhow (c.sweep d) w fun s l r w' => ∃ vs,
      Visited c.menu (fun _ => d) w.waiting w vs s l w' ∧
        r = unlessFault (vs.filterMap (·.fault)).getLast? (vs.map (·.outcome)) := by
  unfold sweep
  refine WorkAnyhow.bind (anyhow_search hw ha .waiting d) ?_ (by rintro _ _ _ _ ⟨-, -, ⟨⟩, -⟩)
  rintro _ l₁ _ w ⟨rfl, h₁, ⟨⟩, rfl⟩
  rw [w.waiting_eq]
  refine Flow.Anyhow.bind_lift (anyhow_coverEach d hw ha (due_waiting hw)) ?_
  rintro s l₂ _ w' ⟨vs, hvs, rfl⟩
  have hall := hvs.after_still h₁
  cases hlast : (vs.filterMap (·.fault)).getLast? with
  | none =>
    apply workAnyhow_pure
    rw [List.append_nil, List.append_nil]
    have hnone : vs.filterMap (·.fault) = [] := List.getLast?_eq_none_iff.1 hlast
    have hfilter : (vs.filter fun v => v.fault.isNone) = vs := by
      apply List.filter_eq_self.2
      intro v hv
      rw [Option.isNone_iff_eq_none]
      exact List.filterMap_eq_nil_iff.1 hnone v hv
    refine ⟨vs, hall, ?_⟩
    rw [hfilter, hlast]
    rfl
  | some f =>
    apply workAnyhow_throw
    rw [List.append_nil, List.append_nil]
    refine ⟨vs, hall, ?_⟩
    rw [hlast]
    rfl

/-! ### One by one -/

/-- Covers the orders of these numbers one by one, as if they were new. -/
def coverInTurn (c : Coverage) (d : OrderNumber → Deadline) :
    List OrderNumber → Work (List Outcome)
  | [] => return []
  | n :: r => do
    let outcome ← c.coverNew (d n) n
    return outcome :: (← c.coverInTurn d r)

/-- As long as sending works, no request fails, and the kitchen is asked for all. -/
theorem Visited.of_ok (h : Visited m d os w vs s l w') (hs : ∀ r ∈ s, r = .ok ()) :
    (∀ v ∈ vs, v.fault = .none) ∧
      List.Forall₂ Asks ((Coverage.servings m os w.stock).flatMap (·.asks)) (Deeds.sent l) := by
  rw [h.sent, ← h.servings, List.flatMap_map]
  rw [h.answers] at hs
  have hattempted := h.attempted
  clear h
  induction vs with
  | nil => exact ⟨by simp, .nil⟩
  | cons v r ih =>
    obtain ⟨hv, hr⟩ := List.forall_mem_cons.1 hattempted
    rw [List.flatMap_cons] at hs
    obtain ⟨hsv, hsr⟩ := List.forall_mem_append.1 hs
    obtain ⟨hfault, hasks⟩ := hv.of_ok hsv
    obtain ⟨hfaults, hrest⟩ := ih hsr hr
    rw [List.flatMap_cons, List.flatMap_cons]
    exact ⟨List.forall_mem_cons.2 ⟨hfault, hfaults⟩, List.rel_append hasks hrest⟩

/-- **As long as sending works, the orders are visited one by one.** -/
theorem anyhow_coverInTurn (hw : w.Orderly c.menu) (ha : w.store.store.answers = true)
    (hos : Due os w) :
    WorkAnyhow (c.coverInTurn d (os.map fun o => o.number)) w fun s l r w' =>
      (∀ r ∈ s, r = .ok ()) → ∃ vs, Visited c.menu d os w vs s l w' ∧
        r = .ok (vs.map (·.outcome)) := by
  induction os generalizing w with
  | nil => exact workAnyhow_pure fun _ => ⟨[], Visited.none Deeds.still_nil, rfl⟩
  | cons o r ih =>
    have ho := (List.forall_mem_cons.1 hos.stored).1
    have hopen := (List.forall_mem_cons.1 hos.isOpen).1
    rw [List.map_cons]
    unfold coverInTurn
    refine WorkAnyhow.bind (anyhow_coverNew_open hw ha ho hopen) ?_ ?_
    · rintro s₁ l₁ out w₁ ⟨v, hv, -, hout, hw₁⟩
      obtain ⟨horderly, hanswers⟩ := hos.next hw ha hw₁
      have hfault : v.fault = .none := by
        cases hf : v.fault with
        | none => rfl
        | some f =>
          rw [hf] at hout
          cases hout
      rw [hfault] at hout
      cases hout
      refine WorkAnyhow.bind (ih horderly hanswers (hos.tail hw hw₁)) ?_ ?_
      · intro s₂ l₂ outs w₂ h
        apply workAnyhow_pure
        rw [List.append_nil, List.append_nil]
        intro hs
        obtain ⟨vs, hvs, houts⟩ := h (List.forall_mem_append.1 hs).2
        cases houts
        exact ⟨v :: vs, hv.append hvs, rfl⟩
      · intro s₂ l₂ f w₂ h hs
        obtain ⟨vs, -, houts⟩ := h (List.forall_mem_append.1 hs).2
        cases houts
    · rintro s₁ l₁ f w₁ ⟨v, hv, -, hout, -⟩ hs
      have hfault := (hv.of_ok hs).1 v (List.mem_singleton_self v)
      rw [hfault] at hout
      cases hout

end Coverage

end Takeaway
