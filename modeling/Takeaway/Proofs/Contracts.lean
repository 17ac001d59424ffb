import Takeaway.Proofs.History
import Takeaway.Proofs.Http.Steps

/-!
Contracts that parts of the system rely on without being able to enforce them, at every moment of a
sequential run. Main statement: none is ever broken. No fault is one of the system itself, no taking
of units is refused, and what a stored order misses is always a count that a quantity holds, so that
no unit is lost on the way from need to stock and kitchen.
-/

namespace Takeaway

open World (Orderly)

variable {rank : World.Rank} {w : World} {m : Menu} {α : Type}

/-! ### Every moment of a flow -/

namespace World

/-- Refusals of takings are never forgotten. -/
theorem rejections_le_perform (w : World) (a : Action) :
    w.rejections ≤ (w.perform a).2.rejections := by
  have hcount : ∀ s n, w.rejections ≤ (w.count s n).rejections := by
    intro s n
    show _ ≤ (w.metrics.count s n).value _
    rw [Metrics.value_count]
    exact Nat.le_add_right _ _
  cases a with
  | take item q =>
    rcases w.take_cases item q with ⟨f, heq⟩ | ⟨s, -, heq⟩ <;> rw [heq]
    · exact hcount _ _
    · exact le_rfl
  | count s n => exact hcount s n
  | note x => exact le_rfl
  | _ =>
    refine (w.steady_perform ?_).rejections.ge
    trivial

end World

namespace Flow

theorem rejections_le_run (x : Flow α) (w : World) :
    w.rejections ≤ (x.run rank w).2.rejections := by
  induction x generalizing w with
  | done a => exact le_rfl
  | act a next ih => exact (w.rejections_le_perform a).trans (ih _ _)
  | wait wt limit next ih => exact (w.steady_await rank wt limit).rejections.ge.trans (ih _ _)

theorem rejections_le_trail (x : Flow α) (w : World) :
    ∀ d ∈ x.trail rank w, d.before.rejections ≤ (x.run rank w).2.rejections := by
  induction x generalizing w with
  | done a => rintro d ⟨⟩
  | act a next ih =>
    intro d hd
    rcases List.mem_cons.1 hd with rfl | hd
    · exact rejections_le_run (.act a next) w
    · exact ih _ _ d hd
  | wait wt limit next ih => exact fun d hd => ih _ _ d hd

/-- Stored orders are backed at every moment of a run of a fair flow. -/
theorem Fair.backed_trail {x : Flow α} {g : Takings} {p : α → Takings → Prop}
    (hx : x.Fair m g p) (hw : w.Backed m g) :
    ∀ d ∈ x.trail rank w, ∃ g', d.before.Backed m g' := by
  induction x generalizing w g with
  | done a => rintro d ⟨⟩
  | act a next ih =>
    obtain ⟨hpermits, n, hnext⟩ := hx
    intro d hd
    rcases List.mem_cons.1 hd with rfl | hd
    · exact ⟨g, hw⟩
    · exact ih _ (hnext g le_rfl _ (hw.relies a)) (hw.perform hpermits n) d hd
  | wait wt limit next ih =>
    exact fun d hd => ih _ (hx _ g le_rfl) (hw.of_store (w.aside_await rank wt limit).store) d hd

end Flow

/-! ### Every moment of a run -/

/-- The deeds of a step. -/
def Step.trail (e : Engine) (w : World) : Step → List Deed
  | operate op => op.trail e w
  | request r => (Http.respond e w.topic r).trail .first w

/-- The worlds that sequential runs come to: after some steps, and before each action of the next
step. -/
inductive Engine.Visits (e : Engine) : World → Prop
  | after (steps : List Step) : Visits e (e.reached steps)
  | amid (steps : List Step) (s : Step) {d : Deed} (h : d ∈ s.trail e (e.reached steps)) :
    Visits e d.before

/-- No taking of units was refused, and the stored orders are sound. -/
structure World.Straight (m : Menu) (w : World) : Prop where
  rejections : w.rejections = 0
  sound : w.Sound m

namespace Engine

variable {e : Engine}

/-- Setting the clock when a message was handled is no refusal. -/
theorem rejections_handled (x : Envelope) :
    (e.handled x w).rejections = ((e.response x).run .inTurn w).2.rejections := by
  unfold handled
  rw [handle_eq, Flow.runEach_one]
  generalize (e.response x).run .inTurn w = out
  rfl

/-- What is found at the moments of a step. -/
theorem step_trail {g : Takings} (hw : w.Backed e.menu g) (s : Step) :
    ∀ d ∈ s.trail e w, d.before.rejections ≤ (s.run e w).rejections ∧ d.before.Sound e.menu := by
  have hflow : ∀ {α : Type} {x : Flow α} {rank : World.Rank} {p : α → Takings → Prop},
      x.Fair e.menu g p → ∀ d ∈ x.trail rank w,
        d.before.rejections ≤ (x.run rank w).2.rejections ∧ d.before.Sound e.menu := by
    intro α x rank p hx d hd
    obtain ⟨g', hg'⟩ := hx.backed_trail hw d hd
    exact ⟨x.rejections_le_trail w d hd, hg'.sound⟩
  have hwork : ∀ {ε α : Type} {x : ExceptT ε Flow α} {p : α → Takings → Prop},
      FairWork e.menu x g p → ∀ d ∈ Work.trail x w,
        d.before.rejections ≤ (Work.left x w).rejections ∧ d.before.Sound e.menu := fun hx =>
    hflow hx
  cases s with
  | request r => exact hflow (Http.fair_respond e w.topic r)
  | operate op =>
    cases op with
    | place customer items => exact hwork (e.fair_place customer items)
    | addInventory item q => exact hwork (e.fair_addInventory item q)
    | collect n => exact hwork (e.fair_collect n)
    | requestSweep => exact hwork e.fair_requestSweep
    | handle x =>
      show ∀ d ∈ (Operation.handle x).trail e w, _ ≤ (e.handled x w).rejections ∧ _
      rw [Operation.trail_handle, rejections_handled]
      exact hflow (e.fair_response x)
    | _ => rintro d ⟨⟩

theorem straight_reached (e : Engine) (steps : List Step) :
    (e.reached steps).Straight e.menu where
  rejections := (steady_reached e steps).rejections
  sound := (orderly_reached e steps).sound

/-- **Every world that a run comes to is straight.** -/
theorem Visits.straight (h : e.Visits w) : w.Straight e.menu := by
  cases h with
  | after steps => exact straight_reached e steps
  | amid steps s hd =>
    obtain ⟨g, hg⟩ := backed_reached e steps
    obtain ⟨hle, hsound⟩ := step_trail hg s _ hd
    have hend := (straight_reached e (steps ++ [s])).rejections
    rw [reached_append] at hend
    exact ⟨by omega, hsound⟩

end Engine

/-! ### Units that are not lost -/

/-- What a sound order misses is a count that a quantity holds. -/
theorem Order.Sound.missing_capped {o : Order} (ho : o.Sound m) (item : String) :
    ((Quantity.capped (o.missing item).toNat).units : Int) = o.missing item := by
  rw [ho.missing_eq, Int.toNat_natCast, ho.needed_units]

/-- Of an item that is named, all that an order misses is packed or asked of the kitchen. -/
theorem Coverage.ends_fill_exact (c : Coverage) {o : Order} (ho : o.Sound c.menu)
    {items : List String} (hitems : items.Nodup) (hreq : ∀ i ∈ items, o.requests i = true) :
    WorkEnds rank (c.fill items o) w fun r _ => ∃ new packed requests,
      r = .ok (new, packed, requests) ∧ ∀ i ∈ items,
        (Item.unitsOf i packed + Item.unitsOf i requests : Int) = o.missing i := by
  refine (ends_fill c ho hreq).imp ?_
  rintro _ _ ⟨rfl, -⟩
  refine ⟨_, _, _, rfl, fun i hi => ?_⟩
  have hfollows := filled_follows items ho w.stock
  have hpacked := filled_packed items ho w.stock i
  have hwithin := hfollows.sound.within i
  obtain ⟨hrequests, -⟩ := filled_named ho w.stock hitems hi
  unfold Order.short Order.requestedOf at hrequests
  unfold Order.requestedOf at hwithin
  rw [hfollows.items] at hrequests hwithin
  unfold Order.missing Order.requestedOf
  omega

/-- What is taken and what falls short come to what is needed, and what is taken is gone. -/
theorem Coverage.ends_allocate_exact (item : String) (needed : Quantity) (tries : Nat) :
    WorkEnds rank (allocate item needed tries) w fun r w' => ∃ a, r = .ok a ∧
      a.taken.units + a.shortfall.units = needed.units ∧
      w'.onHand item + a.taken.units = w.onHand item := by
  cases tries with
  | zero => exact workEnds_pure ⟨_, rfl, Nat.zero_add _, rfl⟩
  | succ tries =>
    refine (ends_allocate needed tries).imp ?_
    rintro _ _ ⟨rfl, rfl⟩
    have hneeded : ((w.stock.onHand item).least needed).units ≤ needed.units := Nat.min_le_right _ _
    have hhand : ((w.stock.onHand item).least needed).units ≤ (w.stock.onHand item).units :=
      Nat.min_le_left _ _
    refine ⟨_, rfl, ?_, Stock.onHand_without hhand⟩
    exact Nat.add_sub_cancel' hneeded

/-! ### Main statement -/

namespace Engine

/-- **No contract is ever broken.** Whatever steps came before, no message leaves a fault of the
system itself behind and no request is answered with one; at every moment no taking of units was
ever refused, and all that a stored order misses of an item is a count that a quantity holds and is
packed or asked of the kitchen, not a unit less; a need is split into what is taken and what falls
short, and of units that are added none is dropped but those beyond the largest count. -/
theorem contracts_kept (e : Engine) :
    (∀ steps m, ∀ r ∈ (e.handle m (e.reached steps)).1, r.category ≠ some .internal) ∧
    (∀ steps r, (e.answer r (e.reached steps)).1.status ≠ 500) ∧
    (∀ w, e.Visits w → w.metrics.value .takesRejected = 0 ∧
      ∀ n o, w.orders.find? n = some o →
        (∀ item, 0 ≤ o.missing item ∧
          ((Quantity.capped (o.missing item).toNat).units : Int) = o.missing item) ∧
        ∀ (rank : World.Rank) (v : World) (items : List String), items.Nodup →
          (∀ i ∈ items, o.requests i = true) →
          WorkEnds rank (e.coverage.fill items o) v fun r _ => ∃ new packed requests,
            r = .ok (new, packed, requests) ∧ ∀ i ∈ items,
              (Item.unitsOf i packed + Item.unitsOf i requests : Int) = o.missing i) ∧
    (∀ (rank : World.Rank) (w : World) (item : String) (needed : Quantity) (tries : Nat),
      WorkEnds rank (Coverage.allocate item needed tries) w fun r w' => ∃ a, r = .ok a ∧
        a.taken.units + a.shortfall.units = needed.units ∧
        w'.onHand item + a.taken.units = w.onHand item) ∧
    ∀ (s : Stock) (item : String) (q : Quantity), s.overflows item q = true →
      Quantity.largest - (s.onHand item).units ≤ q.units ∧
        ((s.add item q).onHand item).units +
            (q.units - (Quantity.largest - (s.onHand item).units)) =
          (s.onHand item).units + q.units := by
  refine ⟨fun steps m r hr hinternal => ?_, fun steps r h500 => ?_, fun w hw => ?_,
    fun rank w => Coverage.ends_allocate_exact, fun s item q => Stock.onHand_add_dropped⟩
  · obtain ⟨x, hx, hfault, -⟩ := accounted_handled (orderly_reached e steps) m
    rw [hx] at hr
    obtain rfl := List.mem_singleton.1 hr
    obtain ⟨f, hf, hcategory⟩ := Option.map_eq_some_iff.1 hinternal
    rcases hfault f hf with houtside | ⟨hvalidation, -⟩
    · rw [houtside] at hcategory
      cases hcategory
    · rw [hvalidation] at hcategory
      cases hcategory
  · obtain ⟨h | h | ⟨h, -⟩, -⟩ := settled_answer (e := e) (tidy_reached e steps).script r <;> omega
  · have hstraight := hw.straight
    refine ⟨hstraight.rejections, fun n o ho => ?_⟩
    have hsound := (hstraight.sound n o ho).1
    refine ⟨fun item => ⟨?_, hsound.missing_capped item⟩, fun rank v items hitems hreq =>
      e.coverage.ends_fill_exact hsound hitems hreq⟩
    rw [hsound.missing_eq]
    exact Int.natCast_nonneg _

end Engine

end Takeaway
