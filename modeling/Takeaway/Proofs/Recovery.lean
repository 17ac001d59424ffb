import Takeaway.Proofs.Delivery
import Takeaway.Proofs.Engine.Run
import Takeaway.Proofs.Message.Codec

/-!
Recovery by a sweep. Main statement: when one sweep request was handled and after it, in any order,
every message that was still to be handled or came up meanwhile, every stored order is ready or
collected, whatever went wrong before.

Two facts are kept from the sweep on: what is missing of a stocked item is in stock or was asked of
the kitchen, and of an item that is in stock nothing is missing unless its arrival is still to be
handled.
-/

namespace Takeaway

open World (Aside Mail Pass Orderly)

variable {e : Engine} {w w' : World} {m : Envelope} {i : String}

/-! ### What messages still to be handled are good for -/

theorem Item.exists_of_unitsOf {lines : List Item} (h : Item.unitsOf i lines ≠ 0) :
    ∃ l ∈ lines, l.name = i ∧ l.quantity.units ≠ 0 := by
  induction lines with
  | nil => exact absurd rfl h
  | cons l r ih =>
    rw [Item.unitsOf] at h
    by_cases hl : l.name = i ∧ l.quantity.units ≠ 0
    · exact ⟨l, List.mem_cons_self .., hl⟩
    · have hr : Item.unitsOf i r ≠ 0 := by
        intro h0
        rw [h0] at h
        split at h
        · next hname => exact hl ⟨hname, by omega⟩
        · exact h rfl
      obtain ⟨x, hx, hname, hq⟩ := ih hr
      exact ⟨x, List.mem_cons_of_mem _ hx, hname, hq⟩

namespace Job

/-- The units of an item that a job adds to the stock. -/
def brings (e : Engine) (i : String) : Job → Nat
  | prepare lines =>
    match Kitchen.plan e.menu e.settings.timeScale lines with
    | .ok _ => Item.unitsOf i lines
    | .error _ => 0
  | _ => 0

/-- The job hands out an item that arrived. -/
def HandsOut (i : String) (j : Job) : Prop := ∃ lines, j = .restock lines ∧ i ∈ Item.names lines

theorem brings_of_plan {lines : List Item}
    (h : ∃ p, Kitchen.plan e.menu e.settings.timeScale lines = .ok p) :
    (prepare lines).brings e i = Item.unitsOf i lines := by
  obtain ⟨p, hp⟩ := h
  simp only [brings, hp]

theorem brings_of_no_plan {lines : List Item}
    (h : ∃ f, Kitchen.plan e.menu e.settings.timeScale lines = .error f) :
    (prepare lines).brings e i = 0 := by
  obtain ⟨f, hf⟩ := h
  simp only [brings, hf]

end Job

namespace Engine

/-- The units of an item that handling a message adds to the stock. -/
def brings (e : Engine) (i : String) (m : Envelope) : Nat :=
  match e.job m with
  | .ok j => j.brings e i
  | .error _ => 0

/-- The units of an item that messages still to be handled will add to the stock. -/
def expected (e : Engine) (i : String) (ms : Multiset Envelope) : Nat := (ms.map (e.brings i)).sum

/-- A message tells that units of an item arrived. -/
def Announces (e : Engine) (i : String) (m : Envelope) : Prop :=
  ∃ j, e.job m = .ok j ∧ j.HandsOut i

theorem expected_add (a b : Multiset Envelope) :
    e.expected i (a + b) = e.expected i a + e.expected i b := by
  unfold expected
  rw [Multiset.map_add, Multiset.sum_add]

theorem expected_singleton (m : Envelope) : e.expected i {m} = e.brings i m := by
  unfold expected
  rw [Multiset.map_singleton, Multiset.sum_singleton]

theorem expected_mono {a b : Multiset Envelope} (h : a ≤ b) : e.expected i a ≤ e.expected i b := by
  obtain ⟨c, rfl⟩ := Multiset.le_iff_exists_add.1 h
  rw [expected_add]
  exact Nat.le_add_right _ _

/-- What the messages that are gone would have brought is no longer expected. -/
theorem expected_balance {gone p p' new : Multiset Envelope} (h : gone + p' = p + new)
    (i : String) :
    e.expected i gone + e.expected i p' = e.expected i p + e.expected i new := by
  rw [← expected_add, ← expected_add, h]

/-- An arrival that is still to be handled is gone only if it was handled. -/
theorem announced_balance {gone p p' new : Multiset Envelope} (h : gone + p' = p + new)
    (hx : ∃ x ∈ p + new, e.Announces i x) :
    (∃ x ∈ gone, e.Announces i x) ∨ ∃ x ∈ p', e.Announces i x := by
  obtain ⟨x, hx, ha⟩ := hx
  rw [← h] at hx
  exact (Multiset.mem_add.1 hx).imp (fun hx => ⟨x, hx, ha⟩) fun hx => ⟨x, hx, ha⟩

/-- Nothing is left of what somebody misses, unless an arrival is still to be handled: this stays so
when units are handed out, unless an arrival was handled. -/
theorem announced_of_le {gone p p' new : Multiset Envelope} {a a' b b' : Nat}
    (h : a = 0 ∨ b = 0 ∨ ∃ x ∈ p, e.Announces i x) (hp : gone + p' = p + new) (ha : a' ≤ a)
    (hb : b' ≤ b) (harrived : (∃ x ∈ gone, e.Announces i x) → a' = 0 ∨ b' = 0) :
    a' = 0 ∨ b' = 0 ∨ ∃ x ∈ p', e.Announces i x := by
  rcases h with h0 | h0 | ⟨x, hx, hann⟩
  · exact .inl (by omega)
  · exact .inr (.inl (by omega))
  · rcases announced_balance hp ⟨x, Multiset.mem_add.2 (.inl hx), hann⟩ with hgone | hleft
    · exact (harrived hgone).imp_right .inl
    · exact .inr (.inr hleft)

theorem brings_of_job {j : Job} (h : e.job m = .ok j) : e.brings i m = j.brings e i := by
  unfold brings
  rw [h]

theorem brings_of_rejection {x : Rejection} (h : e.job m = .error x) : e.brings i m = 0 := by
  unfold brings
  rw [h]

/-- Units are brought by what the kitchen is asked for. -/
theorem job_of_brings (h : e.brings i m ≠ 0) :
    ∃ lines, e.job m = .ok (.prepare lines) ∧ Item.unitsOf i lines ≠ 0 := by
  cases hj : e.job m with
  | error x => exact absurd (brings_of_rejection hj) h
  | ok j =>
    rw [brings_of_job hj] at h
    cases j with
    | prepare lines =>
      refine ⟨lines, rfl, fun h0 => h ?_⟩
      cases hp : Kitchen.plan e.menu e.settings.timeScale lines with
      | ok p => exact (Job.brings_of_plan ⟨p, hp⟩).trans h0
      | error f => exact Job.brings_of_no_plan ⟨f, hp⟩
    | _ => exact absurd rfl h

theorem announces_iff_of_job {j : Job} (h : e.job m = .ok j) : e.Announces i m ↔ j.HandsOut i := by
  constructor
  · rintro ⟨j', hj', hout⟩
    obtain rfl := Except.ok.inj (h.symm.trans hj')
    exact hout
  · exact fun hout => ⟨j, h, hout⟩

theorem not_announces_of_rejection {x : Rejection} (h : e.job m = .error x) :
    ¬ e.Announces i m := by
  rintro ⟨j, hj, -⟩
  rw [h] at hj
  cases hj

theorem announces_itemAdded (l : Item) (t : Timestamp) : e.Announces l.name (.itemAdded l t) :=
  ⟨_, job_restock (Envelope.event_itemAdded l t) (Envelope.lines_itemAdded l t), _, rfl, by
    simp [Item.names]⟩

/-- A request for units of an item on the menu brings these units. -/
theorem brings_itemRequested (hk : e.settings.kitchen = true) {n : OrderNumber} (hn : n.Fits)
    {l : Item} (hl : ∃ b, e.menu.isInstant l.name = .ok b) (k : RequestKey) (t : Timestamp) :
    e.brings i (.itemRequested n l k t) = Item.unitsOf i [l] := by
  rw [brings_of_job (job_prepare hk (Envelope.event_itemRequested l k t n)
    (Envelope.orderNumber_itemRequested l k t hn) (Envelope.lines_itemRequested l k t n))]
  exact Job.brings_of_plan (Kitchen.plan_of_known _ (by simpa using hl))

theorem expected_asked (hk : e.settings.kitchen = true) {rs : List (OrderNumber × Item)}
    {new : Multiset Envelope} (h : Asked rs new)
    (hrs : ∀ r ∈ rs, r.1.Fits ∧ ∃ b, e.menu.isInstant r.2.name = .ok b) :
    Item.unitsOf i (rs.map (·.2)) ≤ e.expected i new := by
  obtain ⟨ms, hms, hle⟩ := h
  refine Nat.le_trans ?_ (expected_mono hle)
  clear hle
  induction hms with
  | nil => exact Nat.zero_le _
  | @cons r m rs ms hr _ ih =>
    obtain ⟨⟨hn, hl⟩, hrest⟩ := List.forall_mem_cons.1 hrs
    obtain ⟨k, t, rfl⟩ := hr
    have hone := brings_itemRequested (i := i) hk hn hl k t
    have hrest := ih hrest
    rw [← Multiset.cons_coe, ← Multiset.singleton_add, expected_add, expected_singleton, hone,
      List.map_cons]
    simp only [Item.unitsOf] at hrest ⊢
    omega

end Engine

theorem Supplied.onHand {lines : List Item} {new : Multiset Envelope} (h : Supplied lines new w w')
    (i : String) : w'.onHand i = min (w.onHand i + Item.unitsOf i lines) Quantity.largest := by
  unfold World.onHand
  rw [h.stock]
  exact Stock.onHand_addAll lines w.stock i

/-- Units that were added are announced. -/
theorem Supplied.announces {lines : List Item} {new : Multiset Envelope}
    (h : Supplied lines new w w') (ha : w.stock.announces = true)
    (hunits : Item.unitsOf i lines ≠ 0) : ∃ x ∈ new, e.Announces i x := by
  obtain ⟨l, hl, rfl, hq⟩ := Item.exists_of_unitsOf hunits
  obtain ⟨t, ht⟩ := h.announced ha l hl hq
  exact ⟨_, ht, Engine.announces_itemAdded l t⟩

/-- When units are added, nothing is left of what somebody misses, unless an arrival is still to be
handled. -/
theorem Supplied.announced_of_no_arrival {lines : List Item} {gone p p' new : Multiset Envelope}
    {b : Nat} (hs : Supplied lines new w w') (ha : w.stock.announces = true)
    (h : w.onHand i = 0 ∨ b = 0 ∨ ∃ x ∈ p, e.Announces i x) (hp : gone + p' = p + new)
    (hno : ∀ x ∈ gone, ¬ e.Announces i x) :
    w'.onHand i = 0 ∨ b = 0 ∨ ∃ x ∈ p', e.Announces i x := by
  have hgone : ¬ ∃ x ∈ gone, e.Announces i x := fun ⟨x, hx, hann⟩ => hno x hx hann
  by_cases hnone : Item.unitsOf i lines = 0
  · have hle : w'.onHand i ≤ w.onHand i := by
      rw [hs.onHand, hnone]
      exact Nat.min_le_left ..
    exact Engine.announced_of_le h hp hle le_rfl fun hann => absurd hann hgone
  · obtain ⟨x, hx, hann⟩ := hs.announces ha hnone
    have hleft := Engine.announced_balance hp ⟨x, Multiset.mem_add.2 (.inr hx), hann⟩
    exact .inr (.inr (hleft.resolve_left hgone))

/-! ### Recovering moments -/

/-- What holds from the sweep on. -/
structure Engine.Recovering (e : Engine) (s : Moment) : Prop where
  orderly : s.world.Orderly e.menu
  flowing : s.world.Flowing
  answers : s.world.store.store.answers = true
  /-- Of no stocked item more is missing than the stock can hold. -/
  bounded : ∀ i, e.menu.isInstant i = .ok false → s.world.short i ≤ Quantity.largest
  /-- What is missing is in stock, or was asked of the kitchen. -/
  covered : ∀ i, e.menu.isInstant i = .ok false →
    s.world.short i ≤ s.world.onHand i + e.expected i s.pending
  /-- Nothing is missing of what is in stock, unless its arrival is still to be handled. -/
  announced : ∀ i, e.menu.isInstant i = .ok false →
    s.world.onHand i = 0 ∨ s.world.short i = 0 ∨ ∃ m ∈ s.pending, e.Announces i m
  instant : ∀ i, e.menu.isInstant i = .ok true → s.world.short i = 0

/-- An order that misses nothing is ready or collected. -/
theorem World.Orderly.finished (hw : w.Orderly e.menu) (h : ∀ i, w.short i = 0) {n : OrderNumber}
    {o : Order} (ho : w.orders.find? n = some o) : o.status = .ready ∨ o.status = .collected := by
  have hsound := (hw.sound n o ho).1
  rw [hsound.finished_iff, hsound.packedUnits_eq_iff]
  intro i
  have hle : o.short i ≤ w.short i := Index.le_total (fun o => o.short i) ho
  have hzero := h i
  omega

/-- Only items on the menu are missing. -/
theorem World.Orderly.isInstant_of_short (hw : w.Orderly e.menu) (h : 0 < w.short i) :
    ∃ b, e.menu.isInstant i = .ok b := by
  by_contra hno
  have hzero : w.short i = 0 := World.short_eq_zero fun n => by
    by_contra hne
    obtain ⟨o, ho, -, -, hreq⟩ := hw.isOpen_of_shortOf (Nat.pos_of_ne_zero hne)
    exact hno ((hw.sound n o ho).1.isInstant_ok hreq)
  omega

namespace Engine.Recovering

/-- When nothing is left to be handled, nothing is missing. -/
theorem short_eq_zero {s : Moment} (h : e.Recovering s) (hs : s.pending = 0) (i : String) :
    s.world.short i = 0 := by
  by_contra hne
  obtain ⟨b, hb⟩ := h.orderly.isInstant_of_short (Nat.pos_of_ne_zero hne)
  cases b with
  | true => exact hne (h.instant i hb)
  | false =>
    have hcovered := h.covered i hb
    rw [hs] at hcovered
    rcases h.announced i hb with h0 | h0 | ⟨m, hm, -⟩
    · have hnone : e.expected i 0 = 0 := rfl
      omega
    · exact hne h0
    · rw [hs] at hm
      exact Multiset.notMem_zero m hm

/-- Serving orders while a message is handled that adds nothing to the stock. -/
theorem pass {s s' : Moment} (h : e.Recovering s) {new : Multiset Envelope}
    (hp : Pass e.menu new s.world s'.world) (hpending : {m} + s'.pending = s.pending + new)
    (hbrings : ∀ i, e.brings i m = 0)
    (harrived : ∀ i, e.menu.isInstant i = .ok false → e.Announces i m →
      s'.world.onHand i = 0 ∨ s'.world.short i = 0) : e.Recovering s' where
  orderly := hp.orderly
  flowing := hp.kept.flowing h.flowing
  answers := hp.kept.answers.trans h.answers
  bounded i hi := (hp.short_le h.orderly i).trans (h.bounded i hi)
  covered i hi := by
    have hold := h.covered i hi
    have hsum := hp.short_add_onHand h.orderly hi
    have hexpected := expected_balance (e := e) hpending i
    rw [expected_singleton, hbrings] at hexpected
    omega
  announced i hi := by
    refine announced_of_le (h.announced i hi) hpending (hp.onHand_le hi)
      (hp.short_le h.orderly i) ?_
    rintro ⟨x, hx, hann⟩
    rw [Multiset.mem_singleton.1 hx] at hann
    exact harrived i hi hann
  instant i hi := by
    have hold := h.instant i hi
    have hshort := hp.short_le h.orderly i
    omega

/-- Adding to the stock what the kitchen was asked for. -/
theorem supplied {s s' : Moment} (h : e.Recovering s) {new : Multiset Envelope} {lines : List Item}
    (hs : Supplied lines new s.world s'.world) (hpending : {m} + s'.pending = s.pending + new)
    (hbrings : ∀ i, e.brings i m = Item.unitsOf i lines) (hm : ∀ i, ¬ e.Announces i m) :
    e.Recovering s' := by
  have horders : s'.world.orders = s.world.orders := congrArg (·.store.orders) hs.store
  have hshort : ∀ i, s'.world.short i = s.world.short i := fun i => by
    unfold World.short
    rw [horders]
  have honHand := hs.onHand
  have hkept : s.world.Kept s'.world := {
    script := by rw [hs.store]
    frozen := by rw [hs.store]
    answers := by rw [hs.store]
    announces := by rw [hs.stock]; exact Stock.announces_addAll lines _
    isUp := hs.mail.isUp
    records := hs.mail.records
    failing := hs.mail.failing }
  constructor
  case orderly =>
    refine ⟨h.orderly.toTidy.of_kept hkept horders (by rw [hs.store]), fun n o ho => ?_⟩
    rw [horders] at ho
    exact h.orderly.sound n o ho
  case flowing => exact hkept.flowing h.flowing
  case answers => exact hkept.answers.trans h.answers
  case bounded =>
    intro i hi
    rw [hshort]
    exact h.bounded i hi
  case covered =>
    intro i hi
    have hold := h.covered i hi
    have hbound := h.bounded i hi
    have hexpected := expected_balance (e := e) hpending i
    rw [expected_singleton, hbrings] at hexpected
    rw [hshort, honHand]
    -- a stock that is full holds all that is missing
    omega
  case announced =>
    intro i hi
    rw [hshort]
    refine hs.announced_of_no_arrival h.orderly.announces (h.announced i hi) hpending fun x hx => ?_
    rw [Multiset.mem_singleton.1 hx]
    exact hm i
  case instant =>
    intro i hi
    rw [hshort]
    exact h.instant i hi

end Engine.Recovering

/-! ### One message after another -/

/-- What a job comes to while moments recover: it serves orders, and leaves none of an item that
it hands out in stock unless none is missing; or it adds what it brings to the stock. -/
def Job.Recovers (e : Engine) (j : Job) (w w' : World) (new : Multiset Envelope) : Prop :=
  (Pass e.menu new w w' ∧ (∀ i, j.brings e i = 0) ∧
    ∀ i, e.menu.isInstant i = .ok false → j.HandsOut i → w'.onHand i = 0 ∨ w'.short i = 0) ∨
  ∃ lines, Supplied lines new w w' ∧ (∀ i, j.brings e i = Item.unitsOf i lines) ∧
    ∀ i, ¬ j.HandsOut i

namespace Engine

variable {rank : World.Rank}

theorem ends_recovers (hw : w.Orderly e.menu) (hf : w.Flowing)
    (ha : w.store.store.answers = true) (j : Job) (d : Deadline) :
    WorkEnds rank (j.work e d) w fun _ w' => ∃ new, j.Recovers e w w' new := by
  have hother : (∀ lines, j ≠ .prepare lines) → (∀ i, j.brings e i = 0) →
      (∀ i, ¬ j.HandsOut i) →
      WorkEnds rank (j.work e d) w fun _ w' => ∃ new, j.Recovers e w w' new := by
    intro hj hbrings hno
    refine (ends_work hw j d).imp ?_
    rintro r w' (⟨new, h, -⟩ | ⟨lines, new, rfl, -⟩)
    · exact ⟨new, .inl ⟨h, hbrings, fun i _ hi => absurd hi (hno i)⟩⟩
    · exact absurd rfl (hj lines)
  cases j with
  | restock lines =>
    refine (ends_restockAll (c := e.coverage) d hw (Item.names lines)).imp ?_
    rintro r w' ⟨new, h, hleft⟩
    refine ⟨new, .inl ⟨h, fun _ => rfl, fun i hi => ?_⟩⟩
    rintro ⟨_, ⟨⟩, hmem⟩
    exact (hleft hf ha).2 i hmem hi
  | prepare lines =>
    refine (Kitchen.ends_prepare e.menu e.settings.timeScale lines).imp ?_
    rintro r w' (⟨hplan, -, new, h⟩ | ⟨hplan, -, rfl⟩)
    · exact ⟨new, .inr ⟨lines, h, fun i => Job.brings_of_plan hplan, by rintro i ⟨_, ⟨⟩, -⟩⟩⟩
    · exact ⟨0, .inl ⟨Pass.of_aside hw (Aside.refl w'), fun i => Job.brings_of_no_plan hplan,
        by rintro i _ ⟨_, ⟨⟩, -⟩⟩⟩
  | cover n => exact hother (by simp) (fun _ => rfl) (by rintro i ⟨_, ⟨⟩, -⟩)
  | sweep => exact hother (by simp) (fun _ => rfl) (by rintro i ⟨_, ⟨⟩, -⟩)
  | handOver n => exact hother (by simp) (fun _ => rfl) (by rintro i ⟨_, ⟨⟩, -⟩)
  | record st => exact hother (by simp) (fun _ => rfl) (by rintro i ⟨_, ⟨⟩, -⟩)

/-- **Handling any message leaves a recovering moment recovering.** -/
theorem Recovering.handle {s : Moment} (h : e.Recovering s) (hm : m ∈ s.flight) :
    e.Recovering ((s.take m).on (e.handled m s.world)) := by
  have hpending : ∀ {new : Multiset Envelope}, Mail new s.world (e.handled m s.world) →
      {m} + ((s.take m).on (e.handled m s.world)).pending = s.pending + new := by
    intro new hmail
    rw [Moment.pending_on (s := s.take m) hmail h.flowing, ← add_assoc, Moment.pending_take hm]
  cases hj : e.job m with
  | error x =>
    have hp := Pass.of_aside h.orderly (handled_of_rejection (w := s.world) hj)
    exact h.pass hp (hpending hp.mail) (fun i => brings_of_rejection hj) fun i _ hann =>
      absurd hann (not_announces_of_rejection hj)
  | ok j =>
    obtain ⟨-, w₁, ⟨new, hjob⟩, haside, -⟩ := handled_of_job hj fun d =>
      ends_recovers h.orderly h.flowing h.answers j d
    rcases hjob with ⟨hp, hbrings, hleft⟩ | ⟨lines, hsupplied, hbrings, hno⟩
    · have hp := hp.trans_aside haside
      refine h.pass hp (hpending hp.mail) (fun i => ?_) fun i hi hann => ?_
      · rw [brings_of_job hj]
        exact hbrings i
      · show (e.handled m s.world).onHand i = 0 ∨ (e.handled m s.world).short i = 0
        rw [haside.onHand, haside.short]
        exact hleft i hi ((announces_iff_of_job hj).1 hann)
    · have hsupplied := hsupplied.trans_aside haside
      refine h.supplied hsupplied (hpending hsupplied.mail) (fun i => ?_) fun i hann => ?_
      · rw [brings_of_job hj]
        exact hbrings i
      · exact hno i ((announces_iff_of_job hj).1 hann)

theorem Recovering.aside {s : Moment} (h : e.Recovering s) (ha : Aside 0 s.world w') :
    e.Recovering (s.on w') := by
  have hpending : (s.on w').pending = s.pending := by
    rw [Moment.pending_on ha.toMail h.flowing, add_zero]
  have hshort := ha.short
  have honHand := ha.onHand
  refine ⟨h.orderly.aside ha, ha.flowing h.flowing, ha.kept.answers.trans h.answers, ?_, ?_, ?_, ?_⟩
  · intro i hi
    exact (hshort i).trans_le (h.bounded i hi)
  · intro i hi
    rw [hpending]
    exact (hshort i).trans_le ((h.covered i hi).trans_eq (by rw [← honHand i]; rfl))
  · intro i hi
    rw [hpending]
    exact (h.announced i hi).imp (honHand i).trans (Or.imp_left (hshort i).trans)
  · exact fun i hi => (hshort i).trans (h.instant i hi)

theorem Recovering.leads {s s' : Moment} (h : e.Recovering s) (hs : e.Leads s s') :
    e.Recovering s' := by
  induction hs with
  | refl => exact h
  | tail _ hnext ih =>
    cases hnext with
    | handle hm => exact ih.handle hm
    | rest wait limit => exact ih.aside (World.aside_await _ .first wait limit)
    | settle => exact ih.aside (World.aside_passWhile _ _)

/-! ### The sweep -/

/-- **A sweep makes any moment recover**, whatever is still to be handled. -/
theorem recovering_of_sweep (hk : e.settings.kitchen = true) (hw : w.Orderly e.menu)
    (hf : w.Flowing) (ha : w.store.store.answers = true)
    (hfits : ∀ n o, w.orders.find? n = some o → n.Fits)
    (hbound : ∀ i, e.menu.isInstant i = .ok false → w.short i ≤ Quantity.largest)
    (hm : m.event = .ok .sweepRequested) (flight : Multiset Envelope) :
    e.Recovering ((Moment.mk w flight).on (e.handled m w)) := by
  obtain ⟨-, w₁, ⟨new, hp, rs, hasked, hknown, hinstant, hstocked⟩, hlast, -⟩ :=
    handled_of_job (job_sweep hm) (p := fun _ w' => ∃ new, Pass e.menu new w w' ∧
      ∃ rs, Asked rs new ∧
        (∀ r ∈ rs, ∃ o, w.orders.find? r.1 = some o ∧ o.requests r.2.name = true) ∧
        (∀ i, e.menu.isInstant i = .ok true → w'.short i = 0) ∧
        ∀ i, e.menu.isInstant i = .ok false →
          (w'.onHand i = 0 ∨ w'.short i = 0) ∧ w'.short i ≤ Item.unitsOf i (rs.map (·.2)))
      fun d => by
        refine WorkEnds.bind (e.coverage.ends_sweep d hw) ?_ ?_
        · rintro _ w' ⟨new, h, hswept⟩
          exact workEnds_pure ⟨new, h, (hswept hf ha).2⟩
        · rintro _ w' ⟨new, h, hswept⟩
          exact ⟨new, h, (hswept hf ha).2⟩
  have hp' : Pass e.menu new w (e.handled m w) := hp.trans_aside hlast
  have hshort := hlast.short
  have honHand := hlast.onHand
  have hrs : ∀ r ∈ rs, r.1.Fits ∧ ∃ b, e.menu.isInstant r.2.name = .ok b := by
    intro r hr
    obtain ⟨o, ho, hreq⟩ := hknown r hr
    exact ⟨hfits _ o ho, (hw.sound _ _ ho).1.isInstant_ok hreq⟩
  have hpending : new ≤ ((Moment.mk w flight).on (e.handled m w)).pending := by
    rw [Moment.pending_on (s := ⟨w, flight⟩) hp'.mail hf]
    exact Multiset.le_add_left _ _
  refine ⟨hp'.orderly, hp'.kept.flowing hf, hp'.kept.answers.trans ha, ?_, ?_, ?_, ?_⟩
  · exact fun i hi => (hp'.short_le hw i).trans (hbound i hi)
  · intro i hi
    have hasked := expected_asked (i := i) hk hasked hrs
    have hmono := expected_mono (e := e) (i := i) hpending
    have hleft := (hstocked i hi).2
    have hs := hshort i
    show (e.handled m w).short i ≤ _
    omega
  · intro i hi
    show (e.handled m w).onHand i = 0 ∨ (e.handled m w).short i = 0 ∨ _
    rw [honHand, hshort]
    exact (hstocked i hi).1.imp_right .inl
  · exact fun i hi => (hshort i).trans (hinstant i hi)

/-- **A sweep recovers everything.** Take any state that operations reach, with any messages still
to be handled, the kitchen at work, the store and the broker in order, and of no stocked item more
missing than the stock can hold. When a sweep request was handled, and after it, in any order, each
message that was to be handled or was sent meanwhile, until none is left and none is under way,
every stored order is ready or collected. -/
theorem sweep_recovers (e : Engine) (hk : e.settings.kitchen = true) (ops : List Operation)
    (hstore : (e.after ops).store.store.answers = true)
    (hup : (e.after ops).broker.isUp = true) (hfailing : (e.after ops).broker.failing = 0)
    (hfits : ∀ n o, (e.after ops).orders.find? n = some o → n.Fits)
    (hbound : ∀ i, e.menu.isInstant i = .ok false → (e.after ops).short i ≤ Quantity.largest)
    {m : Envelope} (hm : m.event = .ok .sweepRequested) (flight : Multiset Envelope) {s : Moment}
    (hs : e.Leads ((Moment.mk (e.after ops) flight).on (e.handled m (e.after ops))) s)
    (hflight : s.flight = 0) (hunder : s.world.underWay = 0) {n : OrderNumber} {o : Order}
    (ho : s.world.orders.find? n = some o) : o.status = .ready ∨ o.status = .collected := by
  have htidy := World.tidy_after e ops
  have hw : (e.after ops).Orderly e.menu := ⟨htidy, World.sound_after e ops⟩
  have hrecovering := (recovering_of_sweep hk hw ⟨hup, hfailing, htidy.records⟩ hstore hfits hbound
    hm flight).leads hs
  have hpending : s.pending = 0 := by
    unfold Moment.pending
    rw [hflight, hunder, add_zero]
  exact hrecovering.orderly.finished (hrecovering.short_eq_zero hpending) ho

/-- An order whose placement nobody handled: the sweep asks the kitchen, the kitchen delivers, and
the arrival makes the order ready. -/
theorem sweep_recovers_lost_order : ∃ s : Moment, s.flight = 0 ∧ s.world.underWay = 0 ∧
    ∃ o, s.world.orders.find? ⟨1⟩ = some o ∧ (o.status = .ready ∨ o.status = .collected) := by
  have hrun : ((through {} [.itemRequested ⟨1⟩ ⟨"fries", Quantity.one⟩ (RequestKey.ofSerial 0)
        (Timestamp.ofMillis 0), .itemAdded ⟨"fries", Quantity.one⟩ (Timestamp.ofMillis 3000),
        .statusUpdated ⟨1⟩ .ready (Timestamp.ofMillis 3000)]
      ((Moment.mk (after {} [.place ⟨7⟩ [⟨"fries", Quantity.one⟩]]) 0).on
        (handled {} (.sweepRequested (Timestamp.ofMillis 0))
          (after {} [.place ⟨7⟩ [⟨"fries", Quantity.one⟩]])))).any fun s =>
      decide (s.flight = 0) && decide (s.world.underWay = 0) &&
        (s.world.orders.find? ⟨1⟩).isSome) = true := by decide +kernel
  obtain ⟨s, hs, hdone⟩ := (Option.any_eq_true _ _).1 hrun
  simp only [Bool.and_eq_true, decide_eq_true_eq, Option.isSome_iff_exists] at hdone
  obtain ⟨⟨hflight, hunder⟩, o, ho⟩ := hdone
  have hnumbers : ((after {} [.place ⟨7⟩ [⟨"fries", Quantity.one⟩]]).orders.entries.all fun x =>
      Text.fitsSigned 64 x.1.value) = true := by decide +kernel
  obtain ⟨x, hx⟩ := List.length_eq_one_iff.1 (show
    (after {} [.place ⟨7⟩ [⟨"fries", Quantity.one⟩]]).orders.entries.length = 1 by decide +kernel)
  refine ⟨s, hflight, hunder, o, ho, sweep_recovers {} (by decide) [.place ⟨7⟩ [⟨"fries",
    Quantity.one⟩]] (by decide +kernel) (by decide +kernel) (by decide +kernel) ?_ ?_
    (Envelope.event_sweepRequested _) 0 (leads_of_through hs) hflight hunder ho⟩
  · exact fun n y hy => List.all_eq_true.1 hnumbers _ (Index.find?_eq_some_iff.1 hy)
  · intro i _
    have hmem : (x.1, x.2) ∈ (after {} [.place ⟨7⟩ [⟨"fries", Quantity.one⟩]]).orders.entries := by
      rw [hx]
      exact List.mem_singleton_self _
    have hle := ((World.sound_after {} [.place ⟨7⟩ [⟨"fries", Quantity.one⟩]] _ _
      (Index.find?_eq_some_iff.2 hmem)).1).short_le i
    unfold World.short
    rw [Index.total_eq, hx]
    simpa using hle

end Engine

end Takeaway
