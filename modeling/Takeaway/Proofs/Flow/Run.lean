import Takeaway.Proofs.Flow.Fair
import Takeaway.Proofs.World.Tidy

/-!
Whole runs of flows. Main statements: what every action and the passing of time keep, a run keeps,
so the switches stay as they are and a tidy world stays tidy; and a run of a fair flow leaves the
stored orders backed.
-/

namespace Takeaway.Flow

open World (Aside)

variable {α : Type} (rank : World.Rank) {w : World}

/-- What single actions and the passing of time keep, a run keeps. -/
theorem run_invariant {P : World → Prop} (hact : ∀ w a, P w → P (World.perform w a).2)
    (haside : ∀ w w' new, Aside new w w' → P w → P w') (x : Flow α) (hw : P w) :
    P (x.run rank w).2 := by
  induction x generalizing w with
  | done a => exact hw
  | act a next ih => exact ih _ (hact w a hw)
  | wait wt limit next ih => exact ih _ (haside _ _ 0 (w.aside_await rank wt limit) hw)

theorem run_kept (x : Flow α) : w.Kept (x.run rank w).2 :=
  run_invariant rank (fun _ a h => h.trans (World.kept_perform _ a))
    (fun _ _ _ ha h => h.trans ha.kept) x (World.Kept.refl w)

theorem run_tidy (x : Flow α) (hw : w.Tidy) : (x.run rank w).2.Tidy :=
  run_invariant rank (fun _ a h => h.perform a) (fun _ _ _ ha h => h.aside ha) x hw

/-- **A run of a fair flow leaves the stored orders backed**, and ends as the flow promises. -/
theorem Fair.run {m : Menu} {x : Flow α} {g : Takings} {p : α → Takings → Prop}
    (hx : x.Fair m g p) (hw : w.Backed m g) :
    ∃ g', g ≤ g' ∧ (x.run rank w).2.Backed m g' ∧ p (x.run rank w).1 g' := by
  induction x generalizing w g with
  | done a => exact ⟨g, le_rfl, hw, hx⟩
  | act a next ih =>
    obtain ⟨hpermits, n, hnext⟩ := hx
    obtain ⟨g', hg, h⟩ := ih _ (hnext g le_rfl _ (hw.relies a)) (hw.perform hpermits n)
    exact ⟨g', (a.le_credit n g _).trans hg, h⟩
  | wait wt limit next ih =>
    have hstore := (w.aside_await rank wt limit).store
    exact ih _ (hx _ g le_rfl) (hw.of_store hstore)

/-! ### Flows that begin at the same moment -/

theorem runEach_one (x : Flow α) (w : World) :
    runEach [x] w = ([(x.run .inTurn w).1],
      { (x.run .inTurn w).2 with now := max w.now (x.run .inTurn w).2.now }) := rfl

theorem runEach_of_run {x : Flow α} {a : α} {w w' : World} (h : x.run .inTurn w = (a, w'))
    (hnow : w.now ≤ w'.now) : runEach [x] w = ([a], w') := by
  rw [runEach_one, h]
  dsimp only
  rw [max_eq_right hnow]

/-- Of a single flow the run is the same, but for the clock. -/
theorem aside_runEach_one (x : Flow α) (w : World) :
    Aside 0 (x.run .inTurn w).2 (runEach [x] w).2 :=
  World.aside_of_same rfl rfl rfl rfl

end Takeaway.Flow
