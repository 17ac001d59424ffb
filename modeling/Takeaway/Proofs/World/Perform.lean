import Takeaway.Proofs.Stock
import Takeaway.Proofs.Store
import Takeaway.World.Basic

/-!
What the actions that touch orders or stock can come to: a call of the store fails and does
nothing, or does what it is for; units are taken or left; units are added.
-/

namespace Takeaway.World

/-- Units of an item in stock. -/
def onHand (w : World) (item : String) : Nat := (w.stock.onHand item).units

/-- The stored orders. -/
def orders (w : World) : Index OrderNumber Order := w.store.store.orders

/-- The world after a number was handed out. -/
def numberGiven (w : World) : World :=
  { w with store := { w.store with store := { w.store.store with
    last := w.store.store.last + 1 } } }

/-- The world after an order was written. -/
def written (w : World) (o : Order) : World :=
  { w with store := { w.store with store := { w.store.store with
    orders := w.store.store.orders.insert o.number (o.touch w.time)
    last := max w.store.store.last o.number.value } } }

variable (w : World)

theorem nextNumber_cases : (∃ f, w.perform .nextNumber = (.error f, w)) ∨
    w.perform .nextNumber = (.ok ⟨w.store.store.last + 1⟩, w.numberGiven) := by
  show (∃ f, w.stored w.store.nextNumber = _) ∨ w.stored w.store.nextNumber = _
  rcases hr : w.store.nextNumber with f | ⟨n, s⟩
  · exact .inl ⟨f, rfl⟩
  · obtain ⟨rfl, rfl⟩ := ScriptedStore.nextNumber_ok hr
    exact .inr rfl

theorem save_cases (o : Order) : (∃ f, w.perform (.save o) = (.error f, w)) ∨
    w.perform (.save o) = (.ok (), w.written o) := by
  show (∃ f, w.stored ((w.store.upsert o w.time).map _) = _) ∨
    w.stored ((w.store.upsert o w.time).map _) = _
  rcases hr : w.store.upsert o w.time with f | s
  · exact .inl ⟨f, rfl⟩
  · obtain rfl := ScriptedStore.upsert_ok hr
    exact .inr rfl

theorem perform_nextNumber_off (hs : w.store.script = [])
    (ha : w.store.store.answers = false) : ∃ f, w.perform .nextNumber = (.error f, w) := by
  obtain ⟨f, hf⟩ := ScriptedStore.nextNumber_off hs ha
  refine ⟨f, ?_⟩
  show w.stored w.store.nextNumber = _
  rw [hf]
  rfl

section Answers

variable {w} (hs : w.store.script = []) (ha : w.store.store.answers = true)
include hs ha

theorem perform_nextNumber :
    w.perform .nextNumber = (.ok ⟨w.store.store.last + 1⟩, w.numberGiven) := by
  show w.stored w.store.nextNumber = _
  rw [ScriptedStore.nextNumber_eq hs ha]
  rfl

theorem perform_save (o : Order) : w.perform (.save o) = (.ok (), w.written o) := by
  show w.stored ((w.store.upsert o w.time).map _) = _
  rw [ScriptedStore.upsert_eq hs ha]
  rfl

end Answers

theorem take_cases (item : String) (q : Quantity) :
    (∃ f, w.perform (.take item q) = (.error f, w.count .takesRejected 1)) ∨
      ∃ s, w.stock.take item q = .ok s ∧
        w.perform (.take item q) = (.ok (), { w with stock := s }) := by
  show (∃ f, w.take item q = _) ∨ ∃ s, _ ∧ w.take item q = _
  unfold take
  rcases w.stock.take item q with f | s
  · exact .inl ⟨f, rfl⟩
  · exact .inr ⟨s, rfl, rfl⟩

section Take

variable {w} {item : String} {q : Quantity}

/-- Units that are there are taken. -/
theorem perform_take (h : q.units ≤ (w.stock.onHand item).units) :
    w.perform (.take item q) = (.ok (), { w with stock := w.stock.without item q }) := by
  show w.take item q = _
  unfold take
  rw [Stock.take_eq h]

/-- Of units that are not there none is taken, and that is counted. -/
theorem perform_take_error (h : (w.stock.onHand item).units < q.units) :
    w.perform (.take item q) =
      (.error (.insufficient item q (w.stock.onHand item)), w.count .takesRejected 1) := by
  show w.take item q = _
  unfold take
  rw [Stock.take_error h]

end Take

theorem add_eq (item : String) (q : Quantity) : ∃ counts, w.perform (.add item q) =
    (w.stock.announces && decide (0 < q.units),
      { w with stock := w.stock.add item q, metrics := counts }) := by
  show ∃ counts, (_, w.add item q) = (_, _)
  unfold add
  dsimp only
  split
  · exact ⟨_, rfl⟩
  · exact ⟨_, rfl⟩

end Takeaway.World
