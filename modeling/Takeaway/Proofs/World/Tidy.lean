import Takeaway.Proofs.World.Aside
import Takeaway.Proofs.World.Backed

/-!
What single actions and the passing of time keep, whoever acts. Main statements: the switches of
the parts stay as they are, and in a tidy world, where the store is not disturbed and numbers only
go up, no action makes a mess.
-/

namespace Takeaway.World

variable {w w' w'' : World} {a : Multiset Envelope}

/-! ### Switches -/

/-- The one world has the switches of the other. -/
structure Kept (w w' : World) : Prop where
  script : w'.store.script = w.store.script
  frozen : w'.store.frozen = w.store.frozen
  answers : w'.store.store.answers = w.store.store.answers
  announces : w'.stock.announces = w.stock.announces
  isUp : w'.broker.isUp = w.broker.isUp
  records : w'.broker.records = w.broker.records
  failing : w.broker.failing = 0 → w'.broker.failing = 0

namespace Kept

protected theorem refl (w : World) : w.Kept w := ⟨rfl, rfl, rfl, rfl, rfl, rfl, id⟩

protected theorem trans (h : w.Kept w') (h' : w'.Kept w'') : w.Kept w'' where
  script := h'.script.trans h.script
  frozen := h'.frozen.trans h.frozen
  answers := h'.answers.trans h.answers
  announces := h'.announces.trans h.announces
  isUp := h'.isUp.trans h.isUp
  records := h'.records.trans h.records
  failing hw := h'.failing (h.failing hw)

theorem flowing (h : w.Kept w') (hw : w.Flowing) : w'.Flowing :=
  ⟨h.isUp.trans hw.isUp, h.failing hw.failing, h.records.trans hw.records⟩

end Kept

theorem Aside.orders (h : Aside a w w') : w'.orders = w.orders := congrArg (·.store.orders) h.store

theorem Aside.onHand (h : Aside a w w') (item : String) : w'.onHand item = w.onHand item := by
  unfold World.onHand
  rw [h.stock]

theorem Aside.kept (h : Aside a w w') : w.Kept w' where
  script := by rw [h.store]
  frozen := by rw [h.store]
  answers := by rw [h.store]
  announces := by rw [h.stock]
  isUp := h.isUp
  records := h.records
  failing := h.failing

theorem kept_perform (w : World) (a : Action) : w.Kept (w.perform a).2 := by
  cases a with
  | nextNumber =>
    rcases w.nextNumber_cases with ⟨f, heq⟩ | heq <;> rw [heq]
    · exact Kept.refl w
    · exact ⟨rfl, rfl, rfl, rfl, rfl, rfl, id⟩
  | save o =>
    rcases w.save_cases o with ⟨f, heq⟩ | heq <;> rw [heq]
    · exact Kept.refl w
    · exact ⟨rfl, rfl, rfl, rfl, rfl, rfl, id⟩
  | take item q =>
    rcases w.take_cases item q with ⟨f, heq⟩ | ⟨s, hs, heq⟩ <;> rw [heq]
    · exact (aside_count w _ _).kept
    · exact ⟨rfl, rfl, rfl, Stock.announces_take hs, rfl, rfl, id⟩
  | add item q =>
    obtain ⟨counts, heq⟩ := w.add_eq item q
    rw [heq]
    exact ⟨rfl, rfl, rfl, rfl, rfl, rfl, id⟩
  | send e => exact (aside_send w e).kept
  | note e => exact (aside_note w e).kept
  | _ => exact ⟨rfl, rfl, rfl, rfl, rfl, rfl, id⟩

/-! ### Tidy worlds -/

/-- The store does what is asked of it when it answers, additions are announced, what is sent is
recorded, and every order stands under its number, which was handed out before. -/
structure Tidy (w : World) : Prop where
  script : w.store.script = []
  frozen : w.store.frozen = none
  announces : w.stock.announces = true
  records : w.broker.records = true
  numbered : ∀ n o, w.orders.find? n = some o → o.number = n ∧ n.value ≤ w.store.store.last

namespace Tidy

/-- Tidiness needs the switches, and the stored orders with the last number. -/
theorem of_kept (h : w.Tidy) (hk : w.Kept w') (ho : w'.orders = w.orders)
    (hl : w.store.store.last ≤ w'.store.store.last) : w'.Tidy where
  script := hk.script.trans h.script
  frozen := hk.frozen.trans h.frozen
  announces := hk.announces.trans h.announces
  records := hk.records.trans h.records
  numbered n o hn := by
    rw [ho] at hn
    obtain ⟨h₁, h₂⟩ := h.numbered n o hn
    exact ⟨h₁, h₂.trans hl⟩

theorem aside (h : w.Tidy) (ha : Aside a w w') : w'.Tidy :=
  h.of_kept ha.kept ha.orders (by rw [ha.store])

theorem written (h : w.Tidy) (o : Order) : (w.written o).Tidy where
  script := h.script
  frozen := h.frozen
  announces := h.announces
  records := h.records
  numbered n x hx := by
    show x.number = n ∧ n.value ≤ max w.store.store.last o.number.value
    rcases Index.find?_insert hx with ⟨rfl, rfl⟩ | ⟨-, hx⟩
    · exact ⟨rfl, le_max_right _ _⟩
    · obtain ⟨h₁, h₂⟩ := h.numbered n x hx
      exact ⟨h₁, h₂.trans (le_max_left _ _)⟩

theorem perform (h : w.Tidy) (a : Action) : (w.perform a).2.Tidy := by
  have hk := kept_perform w a
  cases a with
  | nextNumber =>
    rcases w.nextNumber_cases with ⟨f, heq⟩ | heq <;> rw [heq] at hk ⊢
    · exact h
    · refine h.of_kept hk rfl ?_
      show w.store.store.last ≤ w.store.store.last + 1
      omega
  | save o =>
    rcases w.save_cases o with ⟨f, heq⟩ | heq <;> rw [heq]
    · exact h
    · exact h.written o
  | take item q =>
    rcases w.take_cases item q with ⟨f, heq⟩ | ⟨s, hs, heq⟩ <;> rw [heq] at hk ⊢
    · exact h.of_kept hk rfl le_rfl
    · exact h.of_kept hk rfl le_rfl
  | add item q =>
    obtain ⟨counts, heq⟩ := w.add_eq item q
    rw [heq] at hk ⊢
    exact h.of_kept hk rfl le_rfl
  | _ => exact h.of_kept hk rfl le_rfl

end Tidy

end Takeaway.World
