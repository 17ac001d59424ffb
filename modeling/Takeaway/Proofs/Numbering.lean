import Takeaway.Proofs.Placement

/-!
A store by itself, under any calls in any order: numbers are asked for, orders of whatever number
are written, looked up and searched, and in between the store is switched off and on. Main
statement: numbers that are handed out are fresh, look-ups answer by what was written last, and a
store that is switched off fails and changes nothing; so placing an order writes over none.
-/

namespace Takeaway

namespace Store

/-! ### Calls -/

/-- What is asked of a store. -/
inductive Request where
  | next
  | get (n : OrderNumber)
  | find (f : OrderFilter)
  | upsert (o : Order) (time : Timestamp)

/-- The answers to a request that succeeds. -/
abbrev Request.Answer : Request → Type
  | next => OrderNumber
  | get _ => Option Order
  | find _ => List Order
  | upsert _ _ => Unit

/-- What a request is answered, and the store that is left. -/
def serve (s : Store) : (q : Request) → Except Outage q.Answer × Store
  | .next =>
    match s.nextNumber with
    | .ok (n, s') => (.ok n, s')
    | .error f => (.error f, s)
  | .get n => (s.get? n, s)
  | .find f => (s.find f, s)
  | .upsert o time =>
    match s.upsert o time with
    | .ok s' => (.ok (), s')
    | .error f => (.error f, s)

/-- What happens to a store. -/
inductive Event where
  | call (q : Request)
  /-- The store is switched on or off. -/
  | switch (on : Bool)

/-- The store after some events, the last one first. -/
def after : List Event → Store
  | [] => {}
  | .call q :: past => ((after past).serve q).2
  | .switch on :: past => { after past with answers := on }

/-- Whether the store is on after some events. -/
def isOn : List Event → Bool
  | [] => true
  | .switch on :: _ => on
  | .call _ :: past => isOn past

/-- The order that was last written under a number, with the time of writing. -/
def latest (n : OrderNumber) : List Event → Option Order
  | [] => none
  | .call (.upsert o time) :: past =>
    if isOn past = true ∧ o.number = n then some (o.touch time) else latest n past
  | _ :: past => latest n past

/-- What is to be answered to a request after some events. -/
def Request.Answered (past : List Event) : (q : Request) → q.Answer → Prop
  | next, n => 1 ≤ n.value ∧
      (∀ earlier k, .call next :: earlier <:+ past →
        ((after earlier).serve next).1 = .ok k → k < n) ∧
      ∀ k o, (after past).orders.find? k = some o → k < n
  | get n, found => found = latest n past
  | find f, found => (found.map fun o => o.number).Pairwise (· < ·) ∧
      ∀ o, o ∈ found ↔ latest o.number past = some o ∧ f.accepts o = true
  | upsert _ _, _ => True

/-! ### One call -/

variable {s : Store} {past : List Event}

/-- A store that is switched off fails and changes nothing. -/
theorem serve_off (h : s.answers = false) (q : Request) :
    (∃ f, (s.serve q).1 = .error f) ∧ (s.serve q).2 = s := by
  cases q with
  | next =>
    unfold serve nextNumber
    rw [check_off h]
    exact ⟨⟨_, rfl⟩, rfl⟩
  | get n =>
    unfold serve get?
    rw [check_off h]
    exact ⟨⟨_, rfl⟩, rfl⟩
  | find f =>
    unfold serve find
    rw [check_off h]
    exact ⟨⟨_, rfl⟩, rfl⟩
  | upsert o time =>
    unfold serve upsert
    rw [check_off h]
    exact ⟨⟨_, rfl⟩, rfl⟩

section On

variable (h : s.answers = true)
include h

theorem serve_next : s.serve .next = (.ok ⟨s.last + 1⟩, { s with last := s.last + 1 }) := by
  unfold serve nextNumber
  rw [check_on h]
  rfl

theorem serve_get (n : OrderNumber) : s.serve (.get n) = (.ok (s.orders.find? n), s) := by
  unfold serve get?
  rw [check_on h]
  rfl

theorem serve_find (f : OrderFilter) :
    s.serve (.find f) = (.ok (s.orders.values.filter f.accepts), s) := by
  unfold serve find
  rw [check_on h]
  rfl

theorem serve_upsert (o : Order) (time : Timestamp) : s.serve (.upsert o time) =
    (.ok (), { s with
      orders := s.orders.insert o.number (o.touch time), last := max s.last o.number.value }) := by
  unfold serve upsert
  rw [check_on h]
  rfl

end On

/-! ### What a store is after some events -/

/-- The store is as some events should leave it. -/
structure Follows (past : List Event) (s : Store) : Prop where
  answers : s.answers = isOn past
  stored : ∀ n, s.orders.find? n = latest n past
  numbered : ∀ n o, s.orders.find? n = some o → o.number = n ∧ n.value ≤ s.last
  counted : 0 ≤ s.last

theorem latest_of_off (h : isOn past = false) (q : Request) (n : OrderNumber) :
    latest n (.call q :: past) = latest n past := by
  cases q with
  | upsert o time =>
    rw [latest, h, if_neg]
    rintro ⟨⟨⟩, -⟩
  | _ => rfl

/-- **A call leaves the store as it should.** -/
theorem Follows.serve (h : Follows past s) (q : Request) :
    Follows (.call q :: past) (s.serve q).2 := by
  by_cases ha : s.answers = true
  case neg =>
    have hoff : s.answers = false := Bool.eq_false_iff.2 ha
    rw [(serve_off hoff q).2]
    exact ⟨h.answers, fun n => (h.stored n).trans (latest_of_off (h.answers ▸ hoff) q n).symm,
      h.numbered, h.counted⟩
  cases q with
  | get n =>
    rw [serve_get ha]
    exact ⟨h.answers, h.stored, h.numbered, h.counted⟩
  | find f =>
    rw [serve_find ha]
    exact ⟨h.answers, h.stored, h.numbered, h.counted⟩
  | next =>
    have hle : s.last ≤ s.last + 1 := by omega
    rw [serve_next ha]
    exact ⟨h.answers, h.stored,
      fun n o ho => (h.numbered n o ho).imp_right fun hn => hn.trans hle, h.counted.trans hle⟩
  | upsert o time =>
    have hle : s.last ≤ max s.last o.number.value := le_max_left _ _
    rw [serve_upsert ha]
    refine ⟨h.answers, fun n => ?_, fun n x hx => ?_, h.counted.trans hle⟩
    · rw [latest]
      by_cases hn : o.number = n
      · subst hn
        rw [if_pos ⟨h.answers ▸ ha, rfl⟩]
        exact Index.find?_insert_self _ _ _
      · rw [if_neg fun hboth => hn hboth.2, ← h.stored]
        exact Index.find?_insert_of_ne _ _ hn
    · rcases Index.find?_insert hx with ⟨rfl, rfl⟩ | ⟨-, hx⟩
      · exact ⟨rfl, le_max_right _ _⟩
      · exact (h.numbered n x hx).imp_right fun hn => hn.trans hle

theorem follows_after (past : List Event) : Follows past (after past) := by
  induction past with
  | nil => exact ⟨rfl, fun _ => rfl, (by rintro n o ⟨⟩), le_rfl⟩
  | cons event past ih =>
    cases event with
    | call q => exact ih.serve q
    | switch on => exact ⟨rfl, ih.stored, ih.numbered, ih.counted⟩

/-! ### Numbers -/

/-- The last number only goes up. -/
theorem last_le_serve (s : Store) (q : Request) : s.last ≤ (s.serve q).2.last := by
  by_cases ha : s.answers = true
  · cases q with
    | next =>
      rw [serve_next ha]
      show s.last ≤ s.last + 1
      omega
    | get n => rw [serve_get ha]
    | find f => rw [serve_find ha]
    | upsert o time =>
      rw [serve_upsert ha]
      exact le_max_left _ _
  · rw [(serve_off (Bool.eq_false_iff.2 ha) q).2]

theorem last_mono {earlier : List Event} (h : earlier <:+ past) :
    (after earlier).last ≤ (after past).last := by
  obtain ⟨later, rfl⟩ := h
  induction later with
  | nil => exact le_rfl
  | cons event later ih =>
    cases event with
    | call q => exact ih.trans (last_le_serve _ q)
    | switch on => exact ih

/-- A number that is handed out is the last number from then on. -/
theorem last_of_given {k : OrderNumber} (h : (s.serve .next).1 = .ok k) :
    (s.serve .next).2.last = k.value ∧ k.value = s.last + 1 := by
  by_cases ha : s.answers = true
  · rw [serve_next ha] at h ⊢
    cases h
    exact ⟨rfl, rfl⟩
  · obtain ⟨⟨f, hf⟩, -⟩ := serve_off (Bool.eq_false_iff.2 ha) .next
    rw [hf] at h
    cases h

/-- **A request is answered as it should be**, as long as the store is on. -/
theorem serve_answered (h : isOn past = true) (q : Request) :
    ∃ a, ((after past).serve q).1 = .ok a ∧ q.Answered past a := by
  have hfollows := follows_after past
  have ha : (after past).answers = true := hfollows.answers.trans h
  cases q with
  | next =>
    rw [serve_next ha]
    have hcounted := hfollows.counted
    refine ⟨_, rfl, ?_, fun earlier k hk hgiven => ?_, fun k o ho => ?_⟩
    · show 1 ≤ (after past).last + 1
      omega
    · obtain ⟨hlast, -⟩ := last_of_given hgiven
      have hle : ((after earlier).serve .next).2.last ≤ (after past).last := last_mono hk
      show k.value < (after past).last + 1
      omega
    · obtain ⟨-, hle⟩ := hfollows.numbered k o ho
      show k.value < (after past).last + 1
      omega
  | get n =>
    rw [serve_get ha]
    exact ⟨_, rfl, hfollows.stored n⟩
  | find f =>
    rw [serve_find ha]
    have hascending : ((after past).orders.values.map fun o => o.number).Pairwise (· < ·) :=
      Index.values_ascending fun n o ho => (hfollows.numbered n o ho).1
    refine ⟨_, rfl, hascending.sublist (List.filter_sublist.map _), fun o => ?_⟩
    rw [List.mem_filter, Index.mem_values, ← hfollows.stored]
    refine and_congr_left fun _ => ⟨?_, fun ho => ⟨_, ho⟩⟩
    rintro ⟨n, ho⟩
    rwa [(hfollows.numbered n o ho).1]
  | upsert o time =>
    rw [serve_upsert ha]
    exact ⟨(), rfl, trivial⟩

/-- Nothing stands under a number before it is written under. -/
theorem latest_append {n : OrderNumber} {later : List Event}
    (h : ∀ o time, .call (.upsert o time) ∈ later → o.number ≠ n) (past : List Event) :
    latest n (later ++ past) = latest n past := by
  induction later with
  | nil => rfl
  | cons event later ih =>
    have ih := ih fun o time hmem => h o time (List.mem_cons_of_mem _ hmem)
    cases event with
    | switch on => exact ih
    | call q =>
      cases q with
      | upsert o time =>
        have hn := h o time (List.mem_cons_self ..)
        rw [List.cons_append, latest, if_neg fun hboth => hn hboth.2]
        exact ih
      | _ => exact ih

/-! ### Main statement -/

/-- **Numbers are fresh, and nothing is written over by placing an order.** After any events,
whichever numbers were written under, a store that is on answers every request as it should, and one
that is off fails and changes nothing; a number that is handed out stands for no order before one is
written under it, whatever else happens meanwhile; and placing an order leaves all those that are
stored as they are. -/
theorem numbers_fresh (past : List Event) :
    (isOn past = true → ∀ q, ∃ a, ((after past).serve q).1 = .ok a ∧ q.Answered past a) ∧
    (isOn past = false → ∀ q,
      (∃ f, ((after past).serve q).1 = .error f) ∧ ((after past).serve q).2 = after past) ∧
    (∀ k later, ((after past).serve .next).1 = .ok k →
      (∀ o time, .call (.upsert o time) ∈ later → o.number ≠ k) →
      (after (later ++ .call .next :: past)).orders.find? k = none) ∧
    ∀ (w : World) (rank : World.Rank) (menu : Menu) (customer : CustomerId) (items : List Item),
      WorkEnds rank (Desk.place menu customer items) { w with store := { store := after past } }
        fun r w' =>
          (∀ n o, (after past).orders.find? n = some o → w'.orders.find? n = some o) ∧
          ∀ o, r = .ok o → (after past).orders.find? o.number = none ∧
            w'.orders.find? o.number = some (o.touch w.time) := by
  have hpast := follows_after past
  refine ⟨serve_answered, fun hoff => serve_off (hpast.answers.trans hoff),
    fun k later hk hlater => ?_, fun w rank menu customer items => ?_⟩
  · rw [(follows_after _).stored, latest_append hlater]
    show latest k past = none
    rw [← hpast.stored]
    cases h : (after past).orders.find? k with
    | none => rfl
    | some o =>
      obtain ⟨-, hnext⟩ := last_of_given hk
      have hle := (hpast.numbered k o h).2
      omega
  · have hbelow : ∀ n o, (after past).orders.find? n = some o → n.value ≤ (after past).last :=
      fun n o ho => (hpast.numbered n o ho).2
    exact Desk.ends_place_apart (w := { w with store := { store := after past } }) rfl hbelow menu
      customer items

/-- An order is written whose number was chosen elsewhere. -/
def chosen : Event :=
  .call (.upsert (Order.place ⟨10⟩ ⟨1⟩ [] (Timestamp.ofMillis 0)) (Timestamp.ofMillis 0))

theorem numbers_fresh_chosen : isOn [chosen] = true ∧
    ∃ n : OrderNumber, ((after [chosen]).serve .next).1 = .ok n ∧ 10 < n.value := by
  refine ⟨rfl, ?_⟩
  obtain ⟨n, hn, -, -, hstored⟩ := (numbers_fresh [chosen]).1 rfl .next
  exact ⟨n, hn, hstored ⟨10⟩ _ rfl⟩

end Store

end Takeaway
