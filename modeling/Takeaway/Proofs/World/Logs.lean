import Takeaway.Proofs.Coverage.Exact
import Takeaway.Proofs.World.Served

/-!
Worlds that differ by what was packed. Main statement: a pass over an order logs for it what was
packed, and what was packed left the stock; no other order and no other count is touched.
-/

namespace Takeaway.World

variable {m : Menu} {w w' w'' : World} {g g' : OrderNumber → List Item} {a : Multiset Envelope}

/-- For the stored order of each number the given lines were logged, and that is all that became of
the orders. -/
structure Logs (g : OrderNumber → List Item) (w w' : World) : Prop where
  keys : w'.orders.keys = w.orders.keys
  gains : ∀ n o, w.orders.find? n = some o → ∃ o', w'.orders.find? n = some o' ∧ o.Gains (g n) o'

namespace Logs

theorem of_orders (h : w'.orders = w.orders) : Logs (fun _ => []) w w' := by
  constructor
  · rw [h]
  · intro n o ho
    exact ⟨o, by rw [h]; exact ho, Order.Gains.refl o⟩

protected theorem trans (h : Logs g w w') (h' : Logs g' w' w'') :
    Logs (fun n => g n ++ g' n) w w'' := by
  constructor
  · exact h'.keys.trans h.keys
  · intro n o ho
    obtain ⟨o', ho', hg⟩ := h.gains n o ho
    obtain ⟨o'', ho'', hg'⟩ := h'.gains n o' ho'
    exact ⟨o'', ho'', hg.trans hg'⟩

theorem congr (h : Logs g w w') (hg : ∀ n o, w.orders.find? n = some o → g n = g' n) :
    Logs g' w w' := by
  refine ⟨h.keys, fun n o ho => ?_⟩
  rw [← hg n o ho]
  exact h.gains n o ho

theorem aside (h : Logs g w w') (ha : Aside a w' w'') : Logs g w w'' := by
  obtain ⟨hkeys, hgains⟩ := h
  rw [← ha.orders] at hkeys hgains
  exact ⟨hkeys, hgains⟩

/-- No order comes, and none goes. -/
theorem find?_eq_none (h : Logs g w w') {n : OrderNumber} :
    w'.orders.find? n = none ↔ w.orders.find? n = none := by
  have hmem : ∀ v : World, v.orders.find? n = none ↔ n ∉ v.orders.keys := fun v => by
    rw [Index.mem_keys, Option.eq_none_iff_forall_ne_some]
    simp
  rw [hmem, hmem, h.keys]

theorem shortOf (h : Logs g w w') (n : OrderNumber) (i : String) :
    w'.shortOf n i = w.shortOf n i - Item.unitsOf i (g n) := by
  cases ho : w.orders.find? n with
  | none =>
    have ho' := h.find?_eq_none.2 ho
    unfold World.shortOf
    rw [ho, ho']
    exact (Nat.zero_sub _).symm
  | some o =>
    obtain ⟨o', ho', hg⟩ := h.gains n o ho
    rw [shortOf_eq ho, shortOf_eq ho', hg.short]

/-- A measure that does not change for any order comes to the same for all of them. -/
theorem total (h : Logs g w w') {f : Order → Nat}
    (hf : ∀ n o o', w.orders.find? n = some o → o.Gains (g n) o' → f o' = f o) :
    w'.orders.total f = w.orders.total f := by
  rw [Index.total_eq_sum_keys, Index.total_eq_sum_keys, h.keys]
  refine Finset.sum_congr rfl fun n hn => ?_
  obtain ⟨o, ho⟩ := Index.mem_keys.1 (List.mem_toFinset.1 hn)
  obtain ⟨o', ho', hgains⟩ := h.gains n o ho
  rw [ho, ho']
  exact hf n o o' ho hgains

/-- Where no line of an item was logged, no less of it is missing. -/
theorem short (h : Logs g w w') {i : String} (hg : ∀ n, Item.unitsOf i (g n) = 0) :
    w'.short i = w.short i := by
  refine h.total fun n o o' _ hgains => ?_
  rw [hgains.short, hg, Nat.sub_zero]

end Logs

/-! ### A pass over an order -/

section Covered

variable {o : Order} (items : List String)

theorem logs_covered (ho : w.orders.find? o.number = some o) :
    Logs (fun n => if o.number = n then (Coverage.filled m items o w.stock).packed else []) w
      (w.covered m items o) := by
  unfold covered
  dsimp only
  have horder := Coverage.filled_order m items o w.stock
  generalize Coverage.filled m items o w.stock = f at horder ⊢
  by_cases hp : f.packed = []
  · rw [if_pos hp]
    refine (Logs.of_orders rfl).congr fun n _ _ => ?_
    rw [hp, ite_self]
  · rw [if_neg hp]
    have hnumber : f.order.number = o.number := by rw [horder, Order.logged_number]
    constructor
    · show (w.orders.insert f.order.number _).keys = _
      rw [hnumber]
      exact Index.keys_insert_old _ ho
    · intro n x hn
      show ∃ x', (w.orders.insert f.order.number _).find? n = _ ∧ _
      rw [hnumber]
      by_cases heq : o.number = n
      · subst heq
        obtain rfl := Option.some.inj (ho.symm.trans hn)
        rw [Index.find?_insert_self, if_pos rfl]
        refine ⟨_, rfl, w.time, ?_⟩
        rw [if_neg hp, horder]
        rfl
      · rw [Index.find?_insert_of_ne _ _ heq, if_neg heq]
        exact ⟨x, hn, Order.Gains.refl x⟩

theorem lost_covered (hsound : o.Sound m) :
    Stock.Lost (fun i => if m.isInstant i = .ok true then 0
        else Item.unitsOf i (Coverage.filled m items o w.stock).packed)
      w.stock (w.covered m items o).stock := by
  rw [covered_stock items hsound]
  exact Coverage.lost_filled m items o w.stock

end Covered

end Takeaway.World
