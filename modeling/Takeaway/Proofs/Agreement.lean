import Takeaway.Proofs.Coverage.Tour
import Takeaway.Proofs.History

/-!
A sweep compared with covering the open orders one by one. Main statement: as long as the store
answers and sending works, both come to the same: the same orders and stock, the same requests and
notices in the same order, and the same report; and what the kitchen is asked for of an item that is
kept in stock is what the open orders miss of it beyond what is there.
-/

namespace Takeaway

open World (Orderly)

variable {w w₁ w₂ : World} {m : Menu}

namespace Coverage

/-- Two ways to cover the open orders came to the same, from the moment when the world was `w`. -/
structure Agree (m : Menu) (w : World) (l₁ : List Deed) (r₁ : Except Fault (List Outcome))
    (w₁ : World) (l₂ : List Deed) (r₂ : Except Fault (List Outcome)) (w₂ : World) : Prop where
  /-- Both succeed, and they report the same. -/
  outcomes : ∃ outs, r₁ = .ok outs ∧ r₂ = .ok outs
  worlds : w₁.Matches w₂
  /-- The same orders are written back, in the same order. -/
  saved : Deeds.saved l₁ = Deeds.saved l₂
  /-- The kitchen is asked for the same, in the same order; of an item that is kept in stock, for
  what is missing of it beyond what is there. -/
  asked : ∃ rs, List.Forall₂ Asks rs (Deeds.sent l₁) ∧ List.Forall₂ Asks rs (Deeds.sent l₂) ∧
    ∀ i, m.isInstant i ≠ .ok true → Item.unitsOf i (rs.map (·.2)) =
      (w.waiting.map fun o => o.short i).sum - w.onHand i
  /-- The same new status is told of the same orders, in the same order. -/
  told : ∃ ts, List.Forall₂ Tells ts (Deeds.noted l₁) ∧ List.Forall₂ Tells ts (Deeds.noted l₂)

variable {d₁ d₂ : OrderNumber → Deadline} {vs₁ vs₂ : List Visit} {s₁ s₂ : Replies}
  {l₁ l₂ : List Deed}

/-- **Visits to the open orders come to the same**, as long as sending works. -/
theorem Visited.agree (hw : w.Orderly m) (h₁ : Visited m d₁ w.waiting w vs₁ s₁ l₁ w₁)
    (h₂ : Visited m d₂ w.waiting w vs₂ s₂ l₂ w₂) (hs₁ : ∀ r ∈ s₁, r = .ok ())
    (hs₂ : ∀ r ∈ s₂, r = .ok ()) :
    Agree m w l₁ (.ok (vs₁.map (·.outcome))) w₁ l₂ (.ok (vs₂.map (·.outcome))) w₂ where
  outcomes := ⟨_, rfl, by rw [h₁.outcomes, h₂.outcomes]⟩
  worlds := h₁.same h₂
  saved := h₁.saved.trans h₂.saved.symm
  asked := by
    refine ⟨_, (h₁.of_ok hs₁).2, (h₂.of_ok hs₂).2, ?_⟩
    intro i hi
    have hsound : ∀ o ∈ w.waiting, o.Sound m := fun o ho =>
      (hw.sound _ _ (hw.mem_waiting.1 ho).1).1
    exact unitsOf_servings hsound w.stock hi
  told := ⟨_, h₁.told, h₂.told⟩

end Coverage

namespace Engine

/-- **A sweep comes to the same as covering the open orders one by one**, in the order of their
numbers, whatever the deadlines, as long as the store answers and sending works. -/
theorem sweep_agrees (e : Engine) (ops : List Operation) (rank rank' : World.Rank) (d : Deadline)
    (ds : OrderNumber → Deadline) (hstore : (e.after ops).store.store.answers = true)
    (hup : (e.after ops).broker.isUp = true) (hfailing : (e.after ops).broker.failing = 0) :
    ((e.after ops).waiting.map fun o => o.number).Pairwise (· < ·) ∧
      WorkDoes rank (e.coverage.sweep d) (e.after ops) fun l₁ r₁ w₁ =>
        WorkDoes rank' (e.coverage.coverInTurn ds ((e.after ops).waiting.map fun o => o.number))
          (e.after ops) fun l₂ r₂ w₂ =>
            Coverage.Agree e.menu (e.after ops) l₁ r₁ w₁ l₂ r₂ w₂ := by
  have hw := World.orderly_after e ops
  have hflow : (e.after ops).Flowing := ⟨hup, hfailing, hw.records⟩
  generalize e.after ops = w at hw hstore hflow ⊢
  constructor
  · exact hw.numbers_ascending.sublist (List.filter_sublist.map _)
  refine (Coverage.anyhow_sweep (c := e.coverage) d hw hstore).does.imp ?_
  rintro l₁ r₁ w₁ ⟨s₁, ⟨vs₁, hvs₁, hr₁⟩, hok₁⟩
  have hturn := Coverage.anyhow_coverInTurn (c := e.coverage) (d := ds) hw hstore
    (Coverage.due_waiting hw)
  refine hturn.does.imp ?_
  rintro l₂ r₂ w₂ ⟨s₂, hvs₂, hok₂⟩
  obtain ⟨vs₂, hvs₂, hr₂⟩ := hvs₂ (hok₂ hflow)
  -- no request fails, so that there is no failure to report
  have hnone : vs₁.filterMap (·.fault) = [] :=
    List.filterMap_eq_nil_iff.2 (hvs₁.of_ok (hok₁ hflow)).1
  rw [hnone] at hr₁
  rw [hr₁, hr₂]
  exact hvs₁.agree hw hvs₂ (hok₁ hflow) (hok₂ hflow)

/-- Two orders miss five fries, of which there are four, and one of them water. -/
theorem sweep_agrees_fries :
    let ops : List Operation := [.place ⟨7⟩ [⟨"fries", Quantity.capped 3⟩],
      .place ⟨8⟩ [⟨"water", Quantity.one⟩, ⟨"fries", Quantity.capped 2⟩],
      .addInventory "fries" (Quantity.capped 4)]
    let d : Deadline := ⟨0, Span.zero⟩
    ((after {} ops).waiting.map fun o => o.number) = [⟨1⟩, ⟨2⟩] ∧
      ((after {} ops).waiting.map fun o => o.short "fries").sum -
        (after {} ops).onHand "fries" = 1 ∧
      WorkDoes .first ((coverage {}).sweep d) (after {} ops) fun l₁ r₁ w₁ =>
        WorkDoes .first ((coverage {}).coverInTurn (fun _ => d)
          ((after {} ops).waiting.map fun o => o.number)) (after {} ops) fun l₂ r₂ w₂ =>
            Coverage.Agree (menu {}) (after {} ops) l₁ r₁ w₁ l₂ r₂ w₂ := by
  intro ops d
  exact ⟨by decide +kernel, by decide +kernel, (sweep_agrees {} ops .first .first d (fun _ => d)
    (by decide +kernel) (by decide +kernel) (by decide +kernel)).2⟩

end Engine

end Takeaway
