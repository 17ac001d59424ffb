import Takeaway.Proofs.Conservation
import Takeaway.Proofs.Coverage.Additions
import Takeaway.Proofs.Http.Conduct
import Takeaway.Proofs.Recovery

/-!
Which items come to have a count in stock. A count is begun by the first addition of units, and
whoever adds units has to see to it that the item is one to be kept in stock. Main statement: every
item with a count is on the menu, and it is one that is kept in stock unless a message from outside
asked the kitchen for units of it; the kitchen prepares whatever is on the menu, also items that are
handed out at once, but the engine never asks it for these.
-/

namespace Takeaway

open World (Aside)

variable {Q : String → Prop}

/-! ### Items with a count -/

namespace World

variable {w w' : World}

/-- Every item with a count has the property. -/
def Counts (Q : String → Prop) (w : World) : Prop := ∀ item ∈ w.stock.counts.keys, Q item

theorem counts_start (e : Engine) : e.start.Counts Q := by
  intro item hitem
  cases hitem

theorem Counts.of_stock (h : w.Counts Q) (hstock : w'.stock = w.stock) : w'.Counts Q := by
  unfold Counts
  rw [hstock]
  exact h

/-- **One action** begins no count but for an item that it adds units of. -/
theorem Counts.perform (h : w.Counts Q) {a : Action} (ha : a.AddsOnly Q) :
    (w.perform a).2.Counts Q := by
  cases a with
  | add item q =>
    obtain ⟨counts, hadd⟩ := w.add_eq item q
    rw [hadd]
    intro i hi
    rcases Stock.mem_keys_seed.1 hi with rfl | hold
    · exact ha
    · exact h i hold
  | take item q =>
    rcases w.take_cases item q with ⟨f, htake⟩ | ⟨s, hs, htake⟩ <;> rw [htake]
    · exact h
    · exact fun i hi => h i (Stock.keys_take hs ▸ hi)
  | nextNumber =>
    rcases w.nextNumber_cases with ⟨f, hnext⟩ | hnext <;> rw [hnext] <;> exact h
  | save o =>
    rcases w.save_cases o with ⟨f, hsave⟩ | hsave <;> rw [hsave] <;> exact h
  | _ => exact h.of_stock rfl

/-- A run of a flow begins no count but for items that the flow adds units of. -/
theorem Counts.run (h : w.Counts Q) {α : Type} {x : Flow α} {rank : World.Rank}
    {R : String → Prop} (hx : x.Each (Action.AddsOnly R)) (hR : ∀ item, R item → Q item) :
    (x.run rank w).2.Counts Q :=
  hx.run (fun _ _ ha hw => hw.perform (ha.imp hR)) (fun _ _ hv hw => hw.of_stock hv.stock) h

theorem Counts.left (h : w.Counts Q) {ε α : Type} {x : ExceptT ε Flow α} {R : String → Prop}
    (hx : EachWork (Action.AddsOnly R) x) (hR : ∀ item, R item → Q item) :
    (Work.left x w).Counts Q := h.run hx hR

end World

/-! ### Items that are kept in stock -/

theorem Menu.mem_stocked {m : Menu} {item : String} :
    item ∈ m.stocked ↔ m.isInstant item = .ok false := by
  unfold stocked isInstant entry
  constructor
  · intro h
    obtain ⟨⟨name, x⟩, hx, rfl⟩ := List.mem_map.1 h
    obtain ⟨hentry, hstocked⟩ := List.mem_filter.1 hx
    rw [Index.find?_eq_some_iff.2 hentry]
    simpa only [Except.map, Except.ok.injEq, Bool.not_eq_true'] using hstocked
  · intro h
    cases hfind : m.find? item with
    | none =>
      rw [hfind] at h
      cases h
    | some x =>
      rw [hfind] at h
      refine List.mem_map.2 ⟨(item, x), List.mem_filter.2 ⟨Index.mem_of_find? hfind, ?_⟩, rfl⟩
      simpa only [Except.map, Except.ok.injEq, Bool.not_eq_true'] using h

/-! ### What is added -/

namespace Kitchen

theorem addsOnly_cook {plan : List (Item × Span)}
    (h : ∀ l ∈ plan, l.1.quantity.units ≠ 0 → Q l.1.name) :
    (cook plan).Each (Action.AddsOnly Q) := by
  induction plan with
  | nil => trivial
  | cons l r ih =>
    obtain ⟨i, s⟩ := l
    have hrest := ih fun l hl => h l (List.mem_cons_of_mem _ hl)
    unfold cook
    dsimp only
    split
    · next hq =>
      refine Flow.Each.bind (quiet_pause s).addsOnly fun _ => ?_
      exact Flow.Each.bind (addsOnly_addUnits (h _ (List.mem_cons_self ..) hq) _) fun _ => hrest
    · exact hrest

/-- The kitchen adds units of items that it has a plan for. -/
theorem addsOnly_prepare {menu : Menu} {scale : Double} {lines : List Item}
    (h : ∀ p, plan menu scale lines = .ok p →
      ∀ i ∈ lines, i.quantity.units ≠ 0 → Q i.name) :
    EachWork (Action.AddsOnly Q) (prepare menu scale lines) := by
  refine eachWork_ofRefusal_bind fun p hp => eachWork_lift (addsOnly_cook fun l hl => ?_)
  refine h p hp l.1 ?_
  rw [← plan_lines hp]
  exact List.mem_map_of_mem hl

end Kitchen

namespace Engine

variable (e : Engine)

theorem addsOnly_restockAll (c : Coverage) (d : Deadline) (items : List String) :
    EachWork (Action.AddsOnly Q) (restockAll c d items) := by
  induction items with
  | nil => exact eachWork_pure _
  | cons item r ih =>
    unfold restockAll
    refine EachWork.bind (eachWork_lift (c.addsOnly_restock d item)) fun res => ?_
    split
    · exact ih
    · exact ih
    · exact eachWork_throw _

theorem addsOnly_handOver (n : OrderNumber) (d : Deadline) :
    EachWork (Action.AddsOnly Q) (handOver n d) := by
  unfold handOver
  refine EachWork.bind (Coverage.addsOnly_load d n) fun o => ?_
  refine EachWork.bind (eachWork_ofRefusal _) fun new => ?_
  split
  · refine EachWork.bind (addsOnly_ofStore_saveOrder new d) fun _ => ?_
    refine EachWork.bind (eachWork_lift (Flow.each_ask trivial)) fun time => ?_
    exact eachWork_lift (quiet_notify _).addsOnly
  · exact eachWork_pure _

/-- A message brings units of an item that is on the menu. -/
def Stocks (m : Envelope) (item : String) : Prop :=
  (∃ b, e.menu.isInstant item = .ok b) ∧ e.brings item m ≠ 0

theorem stocks_of_plan {m : Envelope} {lines : List Item} {p : List (Item × Span)} {i : Item}
    (hj : e.job m = .ok (.prepare lines))
    (hp : Kitchen.plan e.menu e.settings.timeScale lines = .ok p) (hi : i ∈ lines)
    (hq : i.quantity.units ≠ 0) : e.Stocks m i.name := by
  have hbrings : e.brings i.name m = Item.unitsOf i.name lines := by
    simp only [brings, hj]
    exact Job.brings_of_plan ⟨p, hp⟩
  refine ⟨Kitchen.known_of_plan hp i hi, ?_⟩
  rw [hbrings]
  exact Nat.ne_of_gt (Item.unitsOf_pos hi (Nat.pos_of_ne_zero hq))

theorem addsOnly_work {m : Envelope} {j : Job} (hj : e.job m = .ok j) (d : Deadline) :
    EachWork (Action.AddsOnly (e.Stocks m)) (j.work e d) := by
  cases j with
  | cover n => exact EachWork.bind (e.coverage.addsOnly_coverNew d n) fun _ => eachWork_pure _
  | restock lines => exact addsOnly_restockAll e.coverage d _
  | sweep => exact EachWork.bind (e.coverage.addsOnly_sweep d) fun _ => eachWork_pure _
  | handOver n => exact addsOnly_handOver n d
  | record s => exact eachWork_lift (quiet_count _).addsOnly
  | prepare lines =>
    exact Kitchen.addsOnly_prepare fun p hp i hi hq => stocks_of_plan e hj hp hi hq

/-- **Handling a message** adds units of items only that it brings units of. -/
theorem addsOnly_response (m : Envelope) :
    (e.response m).Each (Action.AddsOnly (e.Stocks m)) := by
  unfold response
  split
  · exact (Flow.Quiet.bind (quiet_count _) fun _ => Flow.quiet_done _).addsOnly
  · next j hj =>
    unfold Job.flow
    refine Flow.Each.bind (Flow.each_ask trivial) fun d => ?_
    refine Flow.Each.bind (addsOnly_work e hj d) fun r => ?_
    exact (Flow.Quiet.bind (quiet_count _) fun _ =>
      Flow.Quiet.bind (quiet_count _) fun _ => Flow.quiet_done _).addsOnly

/-- Units that are brought in from outside are of an item that is kept in stock. -/
theorem addsOnly_addInventory (item : String) (q : Quantity) :
    EachWork (Action.AddsOnly (· ∈ e.menu.stocked)) (e.addInventory item q) := by
  unfold addInventory
  refine eachWork_ofRefusal_bind fun b hb => ?_
  cases b with
  | true => exact eachWork_throw _
  | false =>
    dsimp only
    split
    · cases ‹false = true›
    · split
      · exact eachWork_throw _
      · refine EachWork.bind (eachWork_lift (addsOnly_addUnits (Menu.mem_stocked.2 hb) q))
          fun _ => ?_
        exact eachWork_lift (Flow.each_ask trivial)

theorem addsOnly_place (customer : CustomerId) (items : List Item) :
    EachWork (Action.AddsOnly Q) (e.place customer items) := by
  have hplace : EachWork (Action.AddsOnly Q) (Desk.place e.menu customer items) := by
    unfold Desk.place
    refine EachWork.bind ?_ fun _ => EachWork.bind (eachWork_mapError _ ?_) fun n => ?_
    · exact trivial
    · exact Flow.Each.bind (quiet_lagOf .next).addsOnly fun _ => Flow.each_ask trivial
    · refine EachWork.bind (eachWork_lift (Flow.each_ask trivial)) fun time => ?_
      refine EachWork.bind (eachWork_mapError _ (addsOnly_saveOrder _)) fun _ => ?_
      exact EachWork.bind (eachWork_lift (quiet_count _).addsOnly) fun _ => eachWork_pure _
  unfold place
  exact EachWork.bind (eachWork_mapError _ hplace) fun o => (quietWork_tell _ _ _).addsOnly

theorem addsOnly_collect (n : OrderNumber) : EachWork (Action.AddsOnly Q) (e.collect n) :=
  (quietWork_collect e n).addsOnly

theorem addsOnly_requestSweep : EachWork (Action.AddsOnly Q) e.requestSweep :=
  (quietWork_requestSweep e).addsOnly

end Engine

/-! ### Requests -/

namespace Http

theorem addsOnly_given {α : Type} {x : Except Nat α} {next : α → Reply}
    (h : ∀ a, EachWork (Action.AddsOnly Q) (next a)) :
    EachWork (Action.AddsOnly Q) (Reply.given x next) := by
  cases x with
  | ok a => exact h a
  | error s => trivial

theorem addsOnly_meant {α : Type} {x : Except Problem α} {next : α → Reply}
    (h : ∀ a, EachWork (Action.AddsOnly Q) (next a)) :
    EachWork (Action.AddsOnly Q) (Reply.meant x next) := by
  cases x with
  | ok a => exact h a
  | error p => trivial

theorem addsOnly_ofWork {α : Type} {x : Work α} (hx : EachWork (Action.AddsOnly Q) x)
    (response : α → Response) : EachWork (Action.AddsOnly Q) (Reply.ofWork x response) :=
  Flow.Each.bind hx fun _ => trivial

variable (e : Engine) (topic : String) (r : Request)

theorem addsOnly_reply (endpoint : Endpoint) :
    EachWork (Action.AddsOnly (· ∈ e.menu.stocked)) (reply e topic r endpoint) := by
  cases endpoint with
  | health => trivial
  | metrics => exact ⟨trivial, fun _ => trivial⟩
  | inventory => exact ⟨trivial, fun _ => trivial⟩
  | place => exact addsOnly_given fun (customer, items) =>
      addsOnly_ofWork (e.addsOnly_place customer items) _
  | list =>
    refine addsOnly_given fun s => addsOnly_meant fun f => addsOnly_ofWork ?_ _
    exact (quietWork_look (quiet_call .find (Flow.quiet_ask (a := .search f) rfl))).addsOnly
  | sweep => exact addsOnly_ofWork e.addsOnly_requestSweep _
  | get segment =>
    refine addsOnly_given fun s => addsOnly_meant fun n => ?_
    have hget : QuietWork (Work.ofDesk (Desk.get n)) :=
      quietWork_look (quiet_call .get (Flow.quiet_ask (a := .fetch n) rfl))
    refine EachWork.bind (quietWork_lift hget).addsOnly fun res => ?_
    rcases res with f | _ | o <;> trivial
  | collect segment =>
    exact addsOnly_given fun s => addsOnly_meant fun n => addsOnly_ofWork (e.addsOnly_collect n) _
  | addInventory =>
    exact addsOnly_given fun i => addsOnly_ofWork (e.addsOnly_addInventory i.name i.quantity) _

/-- **Answering a request** adds units only of items that are kept in stock. -/
theorem addsOnly_respond :
    (respond e topic r).Each (Action.AddsOnly (· ∈ e.menu.stocked)) := by
  unfold respond
  cases endpoint r with
  | error s => trivial
  | ok endpoint =>
    refine Flow.Each.bind (addsOnly_reply e topic r endpoint) fun res => ?_
    cases res with
    | error p => exact ⟨trivial, fun _ => trivial⟩
    | ok response => trivial

end Http

/-! ### Runs -/

namespace Engine

variable {e : Engine} {w : World}

/-- The items that a step may begin to count: those kept in stock, and those that a message which
is handled brings units of. -/
def Admits (e : Engine) (s : Step) (item : String) : Prop :=
  item ∈ e.menu.stocked ∨ ∃ m, s = .operate (.handle m) ∧ e.Stocks m item

/-- **One step** begins no count but for items that it may begin to count. -/
theorem counts_step (hw : w.Counts Q) (s : Step) (hs : ∀ item, e.Admits s item → Q item) :
    (s.run e w).Counts Q := by
  have hstocked : ∀ item ∈ e.menu.stocked, Q item := fun item h => hs item (.inl h)
  have hnone : ∀ item : String, False → Q item := fun _ h => h.elim
  cases s with
  | request r => exact hw.run (Http.addsOnly_respond e w.topic r) hstocked
  | operate op =>
    cases op with
    | place customer items => exact hw.left (e.addsOnly_place customer items) hnone
    | addInventory item q => exact hw.left (e.addsOnly_addInventory item q) hstocked
    | collect n => exact hw.left (e.addsOnly_collect n) hnone
    | requestSweep => exact hw.left e.addsOnly_requestSweep hnone
    | handle m =>
      have hresponse : ((e.response m).run .inTurn w).2.Counts Q :=
        hw.run (e.addsOnly_response m) fun item h => hs item (.inr ⟨m, rfl, h⟩)
      exact hresponse.of_stock (e.aside_handled m w).stock
    | rest wait limit => exact hw.of_stock (w.aside_await .first wait limit).stock
    | settle => exact hw.of_stock (w.aside_passWhile _).stock
    | _ => exact hw.of_stock rfl

/-- **A run** begins no count but for items that one of its steps may begin to count. -/
theorem counts_reached (steps : List Step)
    (hsteps : ∀ s ∈ steps, ∀ item, e.Admits s item → Q item) : (e.reached steps).Counts Q := by
  induction steps using List.reverseRecOn with
  | nil => exact World.counts_start e
  | append_singleton steps s ih =>
    rw [reached_append]
    refine counts_step (ih fun t ht => hsteps t (List.mem_append_left _ ht)) s ?_
    exact hsteps s (List.mem_append_right _ (List.mem_singleton_self s))

/-- **The engine asks the kitchen for items only that are kept in stock.** -/
theorem stocked_of_vouched {x : Envelope} {item : String} (hx : w.Vouches e.menu x)
    (h : e.brings item x ≠ 0) : item ∈ e.menu.stocked := by
  obtain ⟨lines, hj, hlines⟩ := job_of_brings h
  -- what is prepared was asked for, so a message that tells of something else is out
  have hweight : x.weight = 2 := (weight_of_job hj).symm
  have hother : ∀ {v : Event}, x.event = .ok v → v.weight ≠ 2 → item ∈ e.menu.stocked :=
    fun hv hne => absurd ((Envelope.weight_of_event hv).symm.trans hweight) hne
  cases hx with
  | @itemRequested n o i ho hi key t =>
    have hone := (Envelope.lines_itemRequested i key t n).symm.trans (decode_of_job hj)
    obtain rfl := Except.ok.inj hone
    obtain ⟨l, hl, rfl, -⟩ := Item.exists_of_unitsOf hlines
    rw [List.mem_singleton.1 hl]
    exact Menu.mem_stocked.2 hi
  | orderPlaced ho t => exact hother (Envelope.event_orderPlaced ..) (by decide)
  | orderCollected ho hpacked t => exact hother (Envelope.event_orderCollected ..) (by decide)
  | sweepRequested t => exact hother (Envelope.event_sweepRequested t) (by decide)
  | itemAdded hi t => exact hother (Envelope.event_itemAdded ..) (by decide)
  | statusUpdated ho s t => exact hother (Envelope.event_statusUpdated ..) (by decide)

/-- What is answered when all counts are asked for. -/
theorem answer_inventory {r : Http.Request} (hr : Http.endpoint r = .ok .inventory)
    (hmethod : r.method ≠ "HEAD") (w : World) :
    (e.answer r w).1 =
      ⟨200, .json (.record (w.stock.counts.entries.map fun c => (c.1, .int c.2.units)))⟩ := by
  unfold answer Http.respond
  rw [hr]
  exact if_neg hmethod

/-- **An item with a count is kept in stock**, unless a message that was handled, but not sent by
the engine, asked the kitchen for units of it; it is on the menu in any case. These items are what
is answered when all counts are asked for. -/
theorem counted_items (e : Engine) (steps : List Step) :
    let w := e.reached steps
    (∀ item ∈ w.stock.counts.keys, item ∈ e.menu.stocked ∨
      e.menu.isInstant item = .ok true ∧
        ∃ m, .operate (.handle m) ∈ steps ∧ e.brings item m ≠ 0 ∧ m ∉ w.traffic) ∧
    ∀ r, Http.endpoint r = .ok .inventory → r.method ≠ "HEAD" →
      ∃ counts, (e.answer r w).1 = ⟨200, .json (.record counts)⟩ ∧
        counts.map (·.1) = w.stock.counts.keys := by
  intro w
  constructor
  · refine counts_reached steps fun s hs item hadmits => ?_
    rcases hadmits with hstocked | ⟨m, rfl, ⟨b, hb⟩, hbrings⟩
    · exact .inl hstocked
    · cases b with
      | true =>
        refine .inr ⟨hb, m, hs, hbrings, fun hsaid => ?_⟩
        have hstocked := stocked_of_vouched (e.truthful_reached steps m hsaid) hbrings
        rw [Menu.mem_stocked, hb] at hstocked
        cases hstocked
      | false => exact .inl (Menu.mem_stocked.2 hb)
  · intro r hr hmethod
    refine ⟨_, answer_inventory hr hmethod w, ?_⟩
    rw [List.map_map]
    rfl

/-- An engine whose kitchen takes no time. -/
def promptEngine : Engine := { settings := { timeScale := .finite false 0 0 } }

/-- A message that asks the kitchen for a soda, which is handed out at once. -/
def sodaRequest : Envelope :=
  .itemRequested ⟨1⟩ ⟨"soda", Quantity.one⟩ (.ofSerial 0) (.ofMillis 0)

/-- The kitchen puts a soda in stock that it was asked for from outside, and that is what is
answered. -/
theorem counted_items_soda :
    let e := promptEngine
    let steps : List Step := [.operate (.handle sodaRequest)]
    let w := e.reached steps
    "soda" ∈ w.stock.counts.keys ∧ e.menu.isInstant "soda" = .ok true ∧
      (∃ m, .operate (.handle m) ∈ steps ∧ e.brings "soda" m ≠ 0 ∧ m ∉ w.traffic) ∧
      ∃ counts, (e.answer { method := "GET", target := "/inventory" } w).1 =
        ⟨200, .json (.record counts)⟩ ∧ counts.map (·.1) = w.stock.counts.keys := by
  intro e steps w
  obtain ⟨hkeys, hanswer⟩ := e.counted_items steps
  have hsoda : "soda" ∈ w.stock.counts.keys := by decide +kernel
  have hinstant : "soda" ∉ e.menu.stocked := by decide +kernel
  obtain ⟨htrue, hasked⟩ := (hkeys "soda" hsoda).resolve_left hinstant
  exact ⟨hsoda, htrue, hasked, hanswer _ (by decide +kernel) (by decide)⟩

/-- Not every item with a count is kept in stock. -/
theorem soda_counted : ¬∀ (e : Engine) (steps : List Step),
    ∀ item ∈ (e.reached steps).stock.counts.keys, item ∈ e.menu.stocked := by
  intro h
  have hsoda :
      "soda" ∈ (promptEngine.reached [.operate (.handle sodaRequest)]).stock.counts.keys := by
    decide +kernel
  have hstocked := h promptEngine [.operate (.handle sodaRequest)] "soda" hsoda
  exact absurd hstocked (by decide +kernel)

end Engine

end Takeaway
