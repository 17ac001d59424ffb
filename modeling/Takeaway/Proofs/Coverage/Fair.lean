import Takeaway.Coverage
import Takeaway.Proofs.Flow.Fair

/-!
Covering orders is fair: a pass over a backed order takes for it what it packs, no more than the
order misses, and what it saves is backed again. The three uses of a pass inherit this.
-/

namespace Takeaway

variable {m : Menu} {g : Takings}

/-! ### Calls of the store -/

theorem fair_fetchOrder (n : OrderNumber) :
    (fetchOrder n).Fair m g fun r g' => ∀ o, r = .ok (some o) → o.Backed m g' ∧ o.number = n := by
  refine Flow.Fair.bind (Flow.Quiet.fair ?_ g) fun _ g' _ _ => ?_
  · exact quiet_lagOf _
  · exact ⟨trivial, ⟨0⟩, fun g'' _ r hr => hr⟩

theorem fair_searchOrders (f : OrderFilter) :
    (searchOrders f).Fair m g fun r g' => ∀ os, r = .ok os → ∀ o ∈ os, o.Backed m g' := by
  refine Flow.Fair.bind (Flow.Quiet.fair ?_ g) fun _ g' _ _ => ?_
  · exact quiet_lagOf _
  · exact ⟨trivial, ⟨0⟩, fun g'' _ r hr => hr⟩

theorem fair_saveOrder {o : Order} (h : o.Backed m g) :
    (saveOrder o).Fair m g fun _ _ => True := by
  refine Flow.Fair.bind (Flow.Quiet.fair ?_ g) fun _ g' hg _ => ?_
  · exact quiet_lagOf _
  · exact ⟨h.mono hg, ⟨0⟩, fun _ _ _ _ => trivial⟩

namespace Coverage

variable {c : Coverage} (d : Deadline)

/-! ### One order -/

/-- What is allocated is needed, and was taken. -/
theorem fair_allocate (n : OrderNumber) (item : String) (needed : Quantity) (tries : Nat)
    {g₀ : Takings} (hg : g₀ ≤ g) :
    FairWork m (allocate item needed tries) g fun a g' =>
      a.taken.units ≤ needed.units ∧ g₀ n item + a.taken.units ≤ g' n item := by
  induction tries generalizing g with
  | zero => exact fairWork_pure ⟨Nat.zero_le _, hg n item⟩
  | succ tries ih =>
    unfold allocate
    refine FairWork.bind (fairWork_lift (Flow.Quiet.fair (Flow.quiet_ask rfl) g))
      fun onHand g₁ hg₁ _ => ?_
    have hg₁ := hg.trans hg₁
    dsimp only
    split
    · exact fairWork_pure ⟨Nat.zero_le _, hg₁ n item⟩
    · -- the units are for the order, if they are there
      have htake : (Flow.ask (.take item (onHand.least needed))).Fair m g₁ fun r g' =>
          g₀ ≤ g' ∧ (r = .ok () → g₀ n item + (onHand.least needed).units ≤ g' n item) := by
        refine ⟨trivial, n, fun g₂ hg₂ r _ => ?_⟩
        refine ⟨(hg₁.trans hg₂).trans (Action.le_credit _ _ _ _), ?_⟩
        rintro rfl
        show _ ≤ g₂.plus n item _ n item
        rw [Takings.plus_self]
        exact Nat.add_le_add_right ((hg₁.trans hg₂) n item) _
      refine FairWork.bind (fairWork_lift htake) fun r g₂ _ hr => ?_
      obtain ⟨hg₂, hok⟩ := hr
      split
      · exact fairWork_pure ⟨Nat.min_le_right _ _, hok rfl⟩
      · exact ih hg₂
      · exact fairWork_throw _

theorem fair_supply (n : OrderNumber) (item : String) (needed : Quantity) :
    FairWork c.menu (c.supply item needed) g fun a g' => a.taken.units ≤ needed.units ∧
      (c.menu.isInstant item = .ok false → g n item + a.taken.units ≤ g' n item) := by
  unfold supply
  refine FairWork.bind (p := fun b _ => c.menu.isInstant item = .ok b)
    (fairWork_ofRefusal fun b hb => hb) fun b g' hg hb => ?_
  cases b
  · exact (fair_allocate n item needed tries hg).imp fun a _ _ ha => ⟨ha.1, fun _ => ha.2⟩
  · refine fairWork_pure ⟨le_rfl, fun h => ?_⟩
    rw [hb] at h
    cases h

/-- Packing what was taken leaves an order backed. -/
theorem backed_pack {o : Order} {g' : Takings} {item : String} {q : Quantity} (h : o.Backed m g)
    (hg : g ≤ g') (hq : 0 < q.units) (hle : q.units ≤ o.short item)
    (htaken : m.isInstant item = .ok false → g o.number item + q.units ≤ g' o.number item) :
    (o.pack item q).Backed m g' := by
  refine ⟨h.sound.pack hq hle, fun i hi => ?_⟩
  rw [Order.packedOf_pack, Order.pack_number]
  have hb := h.taken i hi
  split
  · next heq =>
    subst heq
    have := htaken hi
    omega
  · have : g o.number i ≤ g' o.number i := hg o.number i
    omega

/-- The need of an item that a sound order misses is what it misses. -/
theorem needed_units {o : Order} (h : o.Sound m) (item : String) :
    (Quantity.capped (o.missing item).toNat).units = o.short item := by
  rw [h.missing_eq, Int.toNat_natCast]
  exact Quantity.capped_units_of_le (h.short_le item)

theorem fair_fill (items : List String) {o : Order} (h : o.Backed c.menu g) :
    FairWork c.menu (c.fill items o) g fun r g' =>
      r.1.Backed c.menu g' ∧ r.1.number = o.number := by
  induction items generalizing o g with
  | nil => exact fairWork_pure ⟨h, rfl⟩
  | cons item r ih =>
    unfold fill
    refine FairWork.bind (p := fun k _ => k = o.missing item)
      (fairWork_ofRefusal fun k hk => ?_) fun missing g₁ hg₁ hmiss => ?_
    · exact (Order.missing?_ok hk).2
    subst hmiss
    have h₁ := h.mono hg₁
    dsimp only
    split
    · exact ih h₁
    · refine FairWork.bind (fair_supply o.number item _) fun a g₂ hg₂ ha => ?_
      rw [needed_units h.sound] at ha
      have hnew : (if a.taken.units = 0 then o else o.pack item a.taken).Backed c.menu g₂ ∧
          (if a.taken.units = 0 then o else o.pack item a.taken).number = o.number := by
        split
        · exact ⟨h₁.mono hg₂, rfl⟩
        · next hq => exact ⟨backed_pack h₁ hg₂ (Nat.pos_of_ne_zero hq) ha.1 ha.2, by simp⟩
      refine FairWork.bind (ih hnew.1) fun r g₃ _ hr => ?_
      exact fairWork_pure ⟨hr.1, hr.2.trans hnew.2⟩

theorem quietWork_requestAll (n : OrderNumber) (items : List Item) :
    QuietWork (c.requestAll d n items) := by
  induction items with
  | nil => exact quietWork_pure _
  | cons i r ih => exact QuietWork.bind ((quietWork_request _ _ _).within d) fun _ => ih

theorem fair_cover {o : Order} (h : o.Backed c.menu g) (items : List String) :
    FairWork c.menu (c.cover d o items) g fun _ _ => True := by
  unfold cover
  refine FairWork.bind (fair_fill items h) fun r g₁ hg₁ hr => ?_
  obtain ⟨new, packed, requests⟩ := r
  -- what follows the save does not touch orders and stock
  have hrest : ∀ g₂, FairWork c.menu (do
      let changed := new.status != o.status
      if changed then notify (.statusUpdated o.number new.status (← Flow.ask .clock))
      c.requestAll d o.number requests
      return (⟨o.number, packed, requests, new.status, changed⟩ : Outcome)) g₂
      fun _ _ => True := by
    intro g₂
    refine QuietWork.fair ?_ g₂
    have hend : ∀ b, QuietWork (do
        c.requestAll d o.number requests
        return (⟨o.number, packed, requests, new.status, b⟩ : Outcome)) := fun b =>
      QuietWork.bind (quietWork_requestAll d _ _) fun _ => quietWork_pure _
    dsimp only
    split
    · refine QuietWork.bind (quietWork_lift (Flow.quiet_ask rfl)) fun time => ?_
      exact QuietWork.bind (quietWork_lift (quiet_notify _)) fun _ => hend _
    · exact hend _
  dsimp only
  split
  · refine FairWork.bind (FairWork.within (fairWork_ofStore (p := fun _ _ => True) ?_) d)
      fun _ g₂ _ _ => hrest g₂
    exact (fair_saveOrder hr.1).imp fun _ _ _ _ _ _ => trivial
  · exact hrest g₁

theorem fair_load (n : OrderNumber) :
    FairWork m (load d n) g fun o g' => o.Backed m g' ∧ o.number = n := by
  unfold load
  refine FairWork.bind (FairWork.within (fairWork_ofStore
    (p := fun r g' => ∀ o, r = some o → o.Backed m g' ∧ o.number = n) ?_) d)
    fun r g₁ _ hr => ?_
  · exact (fair_fetchOrder n).imp fun r g' _ hr a ha o ho => hr o (by rw [ha, ho])
  · cases r with
    | some o => exact fairWork_pure (hr o rfl)
    | none => exact fairWork_throw _

/-! ### The three uses -/

theorem fair_coverNew (n : OrderNumber) :
    FairWork c.menu (c.coverNew d n) g fun _ _ => True := by
  unfold coverNew
  refine FairWork.bind (fair_load d n) fun o g₁ _ ho => ?_
  split
  · exact fair_cover d ho.1 _
  · exact fairWork_pure trivial

theorem fair_handOut (item : String) (orders : List Order) :
    FairWork c.menu (c.handOut d item orders) g fun _ _ => True := by
  induction orders generalizing g with
  | nil => exact fairWork_pure trivial
  | cons candidate r ih =>
    unfold handOut
    refine FairWork.bind (fairWork_lift (Flow.Quiet.fair (Flow.quiet_ask rfl) g))
      fun onHand g₁ _ _ => ?_
    split
    · exact fairWork_pure trivial
    · refine FairWork.bind (fair_load d candidate.number) fun o g₂ _ ho => ?_
      have hon : ∀ missing : Int, ∀ g₃, g₂ ≤ g₃ → FairWork c.menu
          (if missing ≤ 0 then c.handOut d item r else do
            let outcome ← c.cover d o [item]
            return outcome :: (← c.handOut d item r)) g₃ fun _ _ => True := by
        intro missing g₃ hg₃
        split
        · exact ih
        · refine FairWork.bind (fair_cover d (ho.1.mono hg₃) _) fun _ g₄ _ _ => ?_
          exact FairWork.bind ih fun _ _ _ _ => fairWork_pure trivial
      split
      · exact FairWork.bind (p := fun _ _ => True)
          (fairWork_ofRefusal fun _ _ => trivial) fun missing g₃ hg₃ _ => hon missing g₃ hg₃
      · exact FairWork.bind (p := fun _ _ => True)
          (fairWork_pure trivial) fun missing g₃ hg₃ _ => hon missing g₃ hg₃

theorem fair_restock (item : String) :
    FairWork c.menu (c.restock d item) g fun _ _ => True := by
  unfold restock
  refine FairWork.bind (p := fun _ _ => True)
    (fairWork_ofRefusal fun _ _ => trivial) fun b g₁ _ _ => ?_
  split
  · exact fairWork_pure trivial
  · refine FairWork.bind (FairWork.within (fairWork_ofStore (p := fun _ _ => True) ?_) d)
      fun orders g₂ _ _ => fair_handOut d item orders
    exact (fair_searchOrders _).imp fun _ _ _ _ _ _ => trivial

theorem fair_coverEach {orders : List Order} (h : ∀ o ∈ orders, o.Backed c.menu g) :
    (c.coverEach d orders).Fair c.menu g fun _ _ => True := by
  induction orders generalizing g with
  | nil => trivial
  | cons o r ih =>
    have hr : ∀ g', g ≤ g' → (c.coverEach d r).Fair c.menu g' fun _ _ => True := fun g' hg =>
      ih fun o' ho' => (h o' (List.mem_cons_of_mem _ ho')).mono hg
    unfold coverEach
    dsimp only
    split
    · exact hr g le_rfl
    · refine Flow.Fair.bind (fair_cover d (h o (List.mem_cons_self ..)) _) fun res g₁ hg₁ _ => ?_
      cases res with
      | ok outcome => exact Flow.Fair.bind (hr g₁ hg₁) fun _ _ _ _ => trivial
      | error f => exact Flow.Fair.bind (hr g₁ hg₁) fun _ _ _ _ => trivial

theorem fair_sweep : FairWork c.menu (c.sweep d) g fun _ _ => True := by
  unfold sweep
  refine FairWork.bind (FairWork.within (fairWork_ofStore (fair_searchOrders _)) d)
    fun orders g₁ _ ho => ?_
  refine FairWork.bind (fairWork_lift (fair_coverEach d ho)) fun r g₂ _ _ => ?_
  obtain ⟨outcomes, _ | f⟩ := r
  · exact fairWork_pure trivial
  · exact fairWork_throw _

end Coverage

end Takeaway
