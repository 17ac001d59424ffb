import Takeaway.Proofs.Http.Steps
import Takeaway.Proofs.Placement

/-!
What is refused leaves no trace. Main statements: a message whose handling fails for the message's
own fault changes neither orders, stock nor messages; nor does a request that is answered with the
fault of the one who asked, and a request to place an order stores one exactly when it is answered
so, told of or not.
-/

namespace Takeaway

open World (Steady)

variable {rank : World.Rank} {w w' : World}

/-! ### Messages -/

namespace Engine

/-- **A message that is rejected as invalid has no effect.** -/
theorem invalid_without_effect (e : Engine) (steps : List Step) (m : Envelope) {r : CommandResult}
    (hr : r ∈ (e.handle m (e.reached steps)).1) (hinvalid : r.category = some .validation) :
    (e.handle m (e.reached steps)).1 = [r] ∧
      (e.handled m (e.reached steps)).store = (e.reached steps).store ∧
      (e.handled m (e.reached steps)).stock = (e.reached steps).stock ∧
      (e.handled m (e.reached steps)).broker = (e.reached steps).broker ∧
      (e.handled m (e.reached steps)).notices = (e.reached steps).notices := by
  obtain ⟨x, hx, hfault, -⟩ := accounted_handled (orderly_reached e steps) m
  rw [hx] at hr ⊢
  obtain rfl := List.mem_singleton.1 hr
  obtain ⟨f, hf, hcategory⟩ := Option.map_eq_some_iff.1 hinvalid
  rcases hfault f hf with houtside | ⟨-, h⟩
  · rw [houtside] at hcategory
    cases hcategory
  · exact ⟨rfl, h.store, h.stock, h.broker, h.notices⟩

/-- The kitchen is asked for an item that it knows and for one that it does not. -/
def halfKnown : Envelope :=
  (((Envelope.blank (Timestamp.ofMillis 0)).withEvent .itemRequested).withOrder ⟨1⟩).withJson
    (Item.linesDocument [⟨"fries", Quantity.one⟩, ⟨"caviar", Quantity.one⟩])

theorem invalid_without_effect_halfKnown :
    (handle {} halfKnown (reached {} [.operate (.addInventory "fries" Quantity.one)])).1 =
        [⟨prepareKind, some (.unknownItem "caviar")⟩] ∧
      (handled {} halfKnown (reached {} [.operate (.addInventory "fries" Quantity.one)])).stock =
        (reached {} [.operate (.addInventory "fries" Quantity.one)]).stock := by
  have hr : (⟨prepareKind, some (.unknownItem "caviar")⟩ : CommandResult) ∈
      (handle {} halfKnown (reached {} [.operate (.addInventory "fries" Quantity.one)])).1 := by
    decide +kernel
  obtain ⟨hone, -, hstock, -⟩ := invalid_without_effect {} _ halfKnown hr rfl
  exact ⟨hone, hstock⟩

end Engine

/-! ### Placing by request -/

/-- A new order is stored under the next number, and the stock is left as it is. -/
structure World.Took (w : World) (customer : CustomerId) (items : List Item) (o : Order)
    (w' : World) : Prop where
  number : o.number = ⟨w.store.store.last + 1⟩
  customer : o.customer = customer
  items : o.items = items
  status : o.status = .requested
  fresh : w.orders.find? o.number = none
  orders : w'.orders = w.orders.insert o.number o
  last : w'.store.store.last = o.number.value
  stock : w'.stock = w.stock

theorem World.took_of_placed (hw : w.Tidy) {customer : CustomerId} {items : List Item}
    (hs : w'.store = (w.placed customer items).store) (hk : w'.stock = w.stock) :
    w.Took customer items ((w.nextOrder customer items).touch w.time) w' where
  number := rfl
  customer := rfl
  items := rfl
  status := rfl
  fresh := World.find?_nextOrder (fun n o ho => (hw.numbered n o ho).2) customer items
  orders := congrArg (·.store.orders) hs
  last := by
    rw [hs]
    show max (w.store.store.last + 1) (w.store.store.last + 1) = w.store.store.last + 1
    exact max_self _
  stock := hk

theorem World.Took.count {customer : CustomerId} {items : List Item} {o : Order}
    (h : w.Took customer items o w') (s : Series) (n : Nat) :
    w.Took customer items o (w'.count s n) :=
  ⟨h.number, h.customer, h.items, h.status, h.fresh, h.orders, h.last, h.stock⟩

/-- The store is not what it was. -/
theorem World.Took.changed {customer : CustomerId} {items : List Item} {o : Order}
    (h : w.Took customer items o w') : w'.store ≠ w.store := by
  intro heq
  have hlast := h.last
  rw [heq, h.number] at hlast
  dsimp only at hlast
  omega

/-- An order was placed and told of, after notices that were under way. -/
def World.Told (w : World) (n : OrderNumber) (w' : World) : Prop :=
  ∃ time past, w'.broker.history = w.broker.history ++ past ++ [⟨w.topic, .orderPlaced n time⟩] ∧
    ∀ d ∈ past, d.envelope ∈ w.underWay

/-- What a request to place an order comes to, by its status: it is turned away, or the store does
not answer, or the order is stored, and told of or not. -/
inductive World.PlaceAnswered (w : World) (body : Except Nat (CustomerId × List Item))
    (status : Nat) (w' : World) : Prop
  | refused (h : 400 ≤ status ∧ status < 500) (hw : w'.store = w.store)
  | off (h : status = 503) (hoff : w.store.store.answers = false) (hw : w'.store = w.store)
  | told {customer : CustomerId} {items : List Item} {o : Order} (h : status = 201)
    (hbody : body = .ok (customer, items)) (hw : w.Took customer items o w')
    (htold : w.Told o.number w')
  | untold {customer : CustomerId} {items : List Item} {o : Order} (h : status = 503)
    (ha : w.store.store.answers = true) (hbody : body = .ok (customer, items))
    (hw : w.Took customer items o w') (hsent : w'.broker.history = w.broker.history)

namespace World.PlaceAnswered

variable {body : Except Nat (CustomerId × List Item)} {status : Nat}

/-- The store is changed exactly when the order was stored. -/
theorem changed_iff (h : w.PlaceAnswered body status w') : w'.store ≠ w.store ↔
    status = 201 ∨ status = 503 ∧ w.store.store.answers = true := by
  cases h with
  | refused h hsame => exact ⟨fun hne => absurd hsame hne, by omega⟩
  | off h hoff hsame =>
    refine ⟨fun hne => absurd hsame hne, ?_⟩
    rintro (h201 | ⟨-, ha⟩)
    · omega
    · rw [hoff] at ha
      cases ha
  | told h hbody htook htold => exact ⟨fun _ => .inl h, fun _ => htook.changed⟩
  | untold h ha hbody htook hsent => exact ⟨fun _ => .inr ⟨h, ha⟩, fun _ => htook.changed⟩

/-- Where the store was changed, the order of the body was stored, and the status says whether it
was told of. -/
theorem stored (h : w.PlaceAnswered body status w') (hne : w'.store ≠ w.store) :
    ∃ customer items o, body = .ok (customer, items) ∧ w.Took customer items o w' ∧
      (status = 201 → w.Told o.number w') ∧
      (status = 503 → w'.broker.history = w.broker.history) := by
  cases h with
  | refused h hsame => exact absurd hsame hne
  | off h hoff hsame => exact absurd hsame hne
  | told h hbody htook htold =>
    exact ⟨_, _, _, hbody, htook, fun _ => htold, by omega⟩
  | untold h ha hbody htook hsent =>
    exact ⟨_, _, _, hbody, htook, by omega, fun _ => hsent⟩

end World.PlaceAnswered

namespace Engine

/-- What placing an order comes to. -/
theorem ends_place_accepted (e : Engine) (hw : w.Tidy) {items : List Item}
    (hc : Desk.check e.menu items = .ok ()) (customer : CustomerId) :
    WorkEnds rank (e.place customer items) w fun r w' =>
      w.store.store.answers = false ∧ (∃ f, r = .error f) ∧ w' = w ∨
      w.store.store.answers = true ∧ ∃ o, w.Took customer items o w' ∧
        ((∃ o', r = .ok o') ∧ w.Told o.number w' ∨
          (∃ f, r = .error f) ∧ w'.broker.history = w.broker.history) := by
  unfold place
  refine WorkEnds.bind (Desk.ends_place_accepted hw.script hc customer).ofDesk ?_ ?_
  · rintro o v ⟨s, hs, ⟨-, ⟨out, rfl⟩, -⟩ | ⟨ha, rfl, rfl⟩⟩
    · cases hs
    cases hs
    refine Flow.Ends.bind_lift (p := fun _ v => v = w.placed customer items)
      (Flow.ends_ask rfl) ?_
    rintro time _ rfl
    have hsend : WorkEnds rank (Work.publish e.policy
        (.orderPlaced (w.nextOrder customer items).number time)) (w.placed customer items)
        fun r w' => w.Took customer items ((w.nextOrder customer items).touch w.time) w' ∧
          (r = .ok () ∧ w.Told (w.nextOrder customer items).number w' ∨
            (∃ f, r = .error f) ∧ w'.broker.history = w.broker.history) := by
      refine Flow.Ends.bind (ends_publish e.policy _) ?_
      rintro res w' ⟨v, hv, ⟨rfl, hlast⟩ | ⟨⟨f, rfl⟩, g, hlast⟩⟩
      · obtain ⟨hstore, hstock, past, hhistory, hpast⟩ := hv.sent hw.records hlast
        exact ⟨World.took_of_placed hw hstore hstock, .inl ⟨rfl, time, past, hhistory, hpast⟩⟩
      · obtain ⟨hstore, hstock, hhistory⟩ := hv.unsent hlast
        exact ⟨World.took_of_placed hw hstore hstock, .inr ⟨⟨_, rfl⟩, hhistory⟩⟩
    refine WorkEnds.bind hsend ?_ ?_
    · rintro u w' ⟨htook, ⟨-, htold⟩ | ⟨⟨f, ⟨⟩⟩, -⟩⟩
      exact workEnds_pure (.inr ⟨ha, _, htook, .inl ⟨⟨_, rfl⟩, htold⟩⟩)
    · rintro f w' ⟨htook, ⟨⟨⟩, -⟩ | ⟨-, hhistory⟩⟩
      exact .inr ⟨ha, _, htook, .inr ⟨⟨f, rfl⟩, hhistory⟩⟩
  · rintro f v ⟨s, hs, ⟨hoff, -, rfl⟩ | ⟨-, rfl, -⟩⟩
    · exact .inl ⟨hoff, ⟨f, rfl⟩, rfl⟩
    · cases hs

/-- The endpoint of placing an order. -/
theorem endpoint_place {r : Http.Request} (hpost : r.method = "POST")
    (hpath : Http.segments r.target = ["", "orders"]) : Http.endpoint r = .ok .place := by
  unfold Http.endpoint
  rw [hpost, hpath]
  rfl

theorem place_answered (e : Engine) (hw : w.Tidy) {r : Http.Request} (hpost : r.method = "POST")
    (hpath : Http.segments r.target = ["", "orders"]) :
    w.PlaceAnswered (Http.readBody Http.orderReader r) (e.answer r w).1.status
      (e.answer r w).2 := by
  have hendpoint := endpoint_place hpost hpath
  refine Http.ends_respond_of_reply (p := w.PlaceAnswered (Http.readBody Http.orderReader r))
    e w.topic r (fun s h => by rw [hendpoint] at h; cases h) fun endpoint h => ?_
  obtain rfl := Except.ok.inj (hendpoint.symm.trans h)
  show WorkEnds .first (Http.Reply.given (Http.readBody Http.orderReader r) _) w _
  cases hbody : Http.readBody Http.orderReader r with
  | error s =>
    refine workEnds_pure ⟨?_, by rintro _ ⟨⟩⟩
    rintro _ ⟨⟩
    exact .refused (Http.readBody_status hbody) rfl
  | ok b =>
    obtain ⟨customer, items⟩ := b
    cases hc : Desk.check e.menu items with
    | error refusal =>
      refine Flow.Ends.bind (e.ends_place_refused hc customer) ?_
      rintro _ w ⟨rfl, rfl⟩
      refine Flow.ends_done ⟨by rintro _ ⟨⟩, ?_⟩
      rintro _ ⟨⟩
      exact .refused (Http.Problem.status_of_validation (Fault.category_ofRefusal refusal)) rfl
    | ok u =>
      refine Flow.Ends.bind (Flow.Ends.and (e.ends_place_accepted hw hc customer)
        ((plainWork_place e hc customer).ends w)) ?_
      rintro res w' ⟨hres, hfault, -⟩
      refine Flow.ends_done ?_
      rcases hres with ⟨hoff, ⟨f, rfl⟩, rfl⟩ |
        ⟨ha, o, htook, ⟨⟨o', rfl⟩, htold⟩ | ⟨⟨f, rfl⟩, hsent⟩⟩
      · refine ⟨by rintro _ ⟨⟩, ?_⟩
        rintro _ ⟨⟩
        exact .off (Http.Problem.status_of_outside (hfault f rfl)) hoff rfl
      · refine ⟨?_, by rintro _ ⟨⟩⟩
        rintro _ ⟨⟩
        exact .told rfl rfl htook htold
      · refine ⟨by rintro _ ⟨⟩, ?_⟩
        rintro _ ⟨⟩
        exact .untold (Http.Problem.status_of_outside (hfault f rfl)) ha rfl
          (htook.count (.apiErrors _) 1) hsent

/-- No message under way tells of an order that was placed. -/
theorem not_placed_of_underWay (e : Engine) (steps : List Step) {m : Envelope}
    (hm : m ∈ (e.reached steps).underWay) : m.event ≠ .ok .orderPlaced := by
  rcases (steady_reached e steps).notices m hm with hnone | h | h
  · exact absurd hnone (Multiset.notMem_zero _)
  · rw [h]
    simp
  · rw [h]
    simp

/-- **A request that is answered with a fault of the one who asked has no effect.** A request to
place an order changes the store exactly when it is answered so, or when the store answers and
sending does not; then the order that was asked for is stored as a new one, and told of in one
message or in none. -/
theorem client_error_without_effect (e : Engine) (steps : List Step) (r : Http.Request) :
    (400 ≤ (e.answer r (e.reached steps)).1.status →
      (e.answer r (e.reached steps)).1.status < 500 →
      (e.answer r (e.reached steps)).2.store = (e.reached steps).store ∧
      (e.answer r (e.reached steps)).2.stock = (e.reached steps).stock ∧
      (e.answer r (e.reached steps)).2.broker = (e.reached steps).broker ∧
      (e.answer r (e.reached steps)).2.notices = (e.reached steps).notices) ∧
    (r.method = "POST" → Http.segments r.target = ["", "orders"] →
      ((e.answer r (e.reached steps)).2.store ≠ (e.reached steps).store ↔
        (e.answer r (e.reached steps)).1.status = 201 ∨
        (e.answer r (e.reached steps)).1.status = 503 ∧
          (e.reached steps).store.store.answers = true) ∧
      ((e.answer r (e.reached steps)).2.store ≠ (e.reached steps).store →
        ∃ customer items o, Http.readBody Http.orderReader r = .ok (customer, items) ∧
          (e.reached steps).Took customer items o (e.answer r (e.reached steps)).2 ∧
          ((e.answer r (e.reached steps)).1.status = 201 →
            ∃ time past, (e.answer r (e.reached steps)).2.broker.history =
                (e.reached steps).broker.history ++ past ++
                  [⟨(e.reached steps).topic, .orderPlaced o.number time⟩] ∧
              ∀ d ∈ past, d.envelope ∈ (e.reached steps).underWay ∧
                d.envelope.event ≠ .ok .orderPlaced) ∧
          ((e.answer r (e.reached steps)).1.status = 503 →
            (e.answer r (e.reached steps)).2.broker.history =
              (e.reached steps).broker.history))) := by
  have hw := orderly_reached e steps
  refine ⟨fun h₁ h₂ => ?_, fun hpost hpath => ?_⟩
  · obtain ⟨h | h | ⟨-, h⟩, -⟩ := settled_answer (e := e) hw.script r
    · omega
    · omega
    · exact ⟨h.store, h.stock, h.broker, h.notices⟩
  · have hplace := place_answered e hw.toTidy hpost hpath
    refine ⟨hplace.changed_iff, fun hne => ?_⟩
    obtain ⟨customer, items, o, hbody, htook, htold, huntold⟩ := hplace.stored hne
    refine ⟨customer, items, o, hbody, htook, fun h => ?_, huntold⟩
    obtain ⟨time, past, hhistory, hpast⟩ := htold h
    exact ⟨time, past, hhistory, fun d hd =>
      ⟨hpast d hd, not_placed_of_underWay e steps (hpast d hd)⟩⟩

/-- A customer asks for a unit of an item. -/
def requestFor (item : String) : Http.Request where
  method := "POST"
  target := "/orders"
  contentType := some "application/json"
  body := Text.toBytes (Json.chars (.record [("customerId", .int 7), ("items", .list
    [.record [("name", .text item), ("quantity", .int 1)]])]))

/-- While sending does not work, an order for water is stored and not told of; one for tea, which is
not on the menu, has no effect. -/
theorem client_error_without_effect_water :
    ((answer {} (requestFor "water") (reached {} [.operate (.switchBroker false)])).1.status = 503 ∧
      (answer {} (requestFor "water") (reached {} [.operate (.switchBroker false)])).2.store ≠
        (reached {} [.operate (.switchBroker false)]).store) ∧
    (answer {} (requestFor "tea") (reached {} [.operate (.switchBroker false)])).1.status = 400 ∧
      (answer {} (requestFor "tea") (reached {} [.operate (.switchBroker false)])).2.store =
        (reached {} [.operate (.switchBroker false)]).store := by
  have hwater : (answer {} (requestFor "water")
      (reached {} [.operate (.switchBroker false)])).1.status = 503 := by decide +kernel
  have htea : (answer {} (requestFor "tea")
      (reached {} [.operate (.switchBroker false)])).1.status = 400 := by decide +kernel
  refine ⟨⟨hwater, ?_⟩, htea, ?_⟩
  · obtain ⟨hchanged, -⟩ := (client_error_without_effect {} [.operate (.switchBroker false)]
      (requestFor "water")).2 rfl (by decide +kernel)
    exact hchanged.2 (.inr ⟨hwater, by decide +kernel⟩)
  · exact ((client_error_without_effect {} [.operate (.switchBroker false)]
      (requestFor "tea")).1 htea.ge (htea.trans_lt (by decide))).1

end Engine

end Takeaway
