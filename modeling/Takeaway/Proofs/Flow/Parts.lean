import Takeaway.Proofs.Flow.Ends
import Takeaway.Proofs.World.Parts

/-!
Flows that keep to some parts of the world. Main statements: what such a flow comes to depends on
these parts alone, it leaves alone all others, and it counts no messages for the router.
-/

namespace Takeaway

open World (Alike Lasts)

namespace Flow

variable {α : Type} {P Q : Part → Prop} {rank : World.Rank} {w v : World}

/-- A flow all of whose actions and waits touch none but the parts `P`, whatever it is answered. -/
def KeepsTo (P : Part → Prop) : Flow α → Prop
  | done _ => True
  | act a next => (∀ p, a.Touches p → P p) ∧ ∀ r, (next r).KeepsTo P
  | wait wt _ next => (∀ p, wt.Touches p → P p) ∧ ∀ b, (next b).KeepsTo P

theorem KeepsTo.mono {x : Flow α} (hx : x.KeepsTo P) (hQ : ∀ p, P p → Q p) : x.KeepsTo Q := by
  induction x with
  | done a => trivial
  | act a next ih => exact ⟨fun p hp => hQ p (hx.1 p hp), fun r => ih r (hx.2 r)⟩
  | wait wt limit next ih => exact ⟨fun p hp => hQ p (hx.1 p hp), fun b => ih b (hx.2 b)⟩

/-- **What a flow comes to depends on the parts that it keeps to**, and on the clock. -/
theorem KeepsTo.run_alike {x : Flow α} (hx : x.KeepsTo P) (hcounts : ¬ P .counts)
    (h : Alike P w v) (hnow : v.now = w.now) :
    (x.run rank v).1 = (x.run rank w).1 ∧ Alike P (x.run rank w).2 (x.run rank v).2 := by
  induction x generalizing w v with
  | done a => exact ⟨rfl, h⟩
  | act a next ih =>
    obtain ⟨hanswer, hafter⟩ := h.perform hnow hx.1 hcounts
    have hnow' : (v.perform a).2.now = (w.perform a).2.now := by
      rw [World.perform_now, World.perform_now, hnow]
    show ((next (v.perform a).1).run rank (v.perform a).2).1 = _ ∧ Alike P _
      ((next (v.perform a).1).run rank (v.perform a).2).2
    rw [hanswer]
    exact ih _ (hx.2 _) hafter hnow'
  | wait wt limit next ih =>
    obtain ⟨hreached, hclock, hafter⟩ := h.await hnow rank hx.1 limit
    rw [run_wait, run_wait, hreached]
    exact ih _ (hx.2 _) hafter hclock

/-- **A flow leaves alone the parts that it does not keep to**, if no notice is under way that could
change them. -/
theorem KeepsTo.run_apart {x : Flow α} (hx : x.KeepsTo P) (hapart : ∀ p, P p → ¬ Q p)
    (hmail : Q .mail → w.Alone) : Alike Q w (x.run rank w).2 := by
  induction x generalizing w with
  | done a => exact .refl Q w
  | act a next ih =>
    have hafter : Alike Q w (w.perform a).2 :=
      World.alike_perform (fun p hp => hapart p (hx.1 p hp)) w
    exact hafter.trans (ih _ (hx.2 _) fun hQ => hafter.alone hQ (hmail hQ))
  | wait wt limit next ih =>
    have hafter : Alike Q w (w.await rank wt limit).2 := World.alike_await hmail rank wt limit
    rw [run_wait]
    exact hafter.trans (ih _ (hx.2 _) fun hQ => hafter.alone hQ (hmail hQ))

/-- A flow that does not keep to the counts leaves those of the router as they are. -/
theorem KeepsTo.run_value {x : Flow α} (hx : x.KeepsTo P) (hcounts : ¬ P .counts) {s : Series}
    (hs : s.isRouters = true) : (x.run rank w).2.metrics.value s = w.metrics.value s := by
  induction x generalizing w with
  | done a => rfl
  | act a next ih =>
    have hafter := World.value_perform (fun ha => hcounts (hx.1 _ ha)) hs w
    exact (ih _ (hx.2 _)).trans hafter
  | wait wt limit next ih =>
    rw [run_wait]
    exact (ih _ (hx.2 _)).trans (World.value_await hs w rank wt limit)

end Flow

end Takeaway
