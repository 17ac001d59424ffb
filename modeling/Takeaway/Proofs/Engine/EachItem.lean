import Takeaway.Proofs.Engine.Arrivals

/-!
Arrivals of several items in closed form. Main statement: as long as sending works, each item that
is kept in stock is handed out as if it were the only one, so that what is packed, told and asked
for can be read off the orders and the stock that there were in the beginning.
-/

namespace Takeaway

open World (Aside Pass Orderly)

variable {rank : World.Rank} {w w₁ w' : World} {m : Menu} {item : String} {items : List String}
  {l l' : List Deed}

namespace World

/-- The new statuses of the order of a number when it is given its portions of some items. -/
def climb (w : World) (items : List String) (n : OrderNumber) : List Status :=
  match w.orders.find? n with
  | none => []
  | some o => o.climb (items.map fun i => w.portionLine i n)

end World

/-- Items that are kept in stock were handed out, each as if it were the only one. -/
structure Restocked (items : List String) (w : World) (l : List Deed) (w' : World) : Prop where
  logs : World.Logs (fun n => items.flatMap fun i => w.portionLine i n) w w'
  lost : Stock.Lost (fun i => if i ∈ items then min (w.onHand i) (w.short i) else 0)
    w.stock w'.stock
  told : ∃ ts, List.Forall₂ Tells ts (Deeds.noted l) ∧
    ts.Perm (w.orders.keys.flatMap fun n => (w.climb items n).map fun s => (n, s))
  asked : List.Forall₂ Asks (items.flatMap fun i => w.orders.keys.flatMap (w.cuts i))
    (Deeds.sent l)

namespace Coverage.HandsOut

variable (h : HandsOut item w l w₁)
include h

/-- Another item is left alone. -/
theorem other {i : String} (hi : i ≠ item) :
    (∀ n, w₁.portion n i = w.portion n i) ∧ w₁.onHand i = w.onHand i ∧ w₁.short i = w.short i ∧
      ∀ n, w₁.cuts i n = w.cuts i n := by
  have hunits : ∀ n, Item.unitsOf i (w.portionLine item n) = 0 := fun n => by
    unfold World.portionLine
    rw [unitsOf_line, if_neg fun h => hi h.symm]
  have hstock : w₁.onHand i = w.onHand i := by
    have hlost := h.lost.onHand i
    rwa [if_neg hi] at hlost
  have hportion := fun n => h.logs.portion hunits hstock n
  refine ⟨hportion, hstock, h.logs.short hunits, fun n => World.cuts_congr ?_ (hportion n)⟩
  rw [h.logs.shortOf, hunits, Nat.sub_zero]

/-- The statuses of an order begin with the one that it has when the first item was handed out. -/
theorem climb (hitem : item ∉ items) (n : OrderNumber) :
    ((w.climb (item :: items) n).map fun s => (n, s)) =
      w.news item n ++ (w₁.climb items n).map fun s => (n, s) := by
  have hrest : ∀ i ∈ items, w₁.portionLine i n = w.portionLine i n := fun i hi =>
    World.portionLine_congr ((h.other fun heq => hitem (heq ▸ hi)).1 n)
  unfold World.climb World.news
  cases ho : w.orders.find? n with
  | none =>
    rw [h.logs.find?_eq_none.2 ho]
    rfl
  | some o =>
    obtain ⟨o₁, ho₁, hgains⟩ := h.logs.gains n o ho
    rw [ho₁]
    dsimp only
    rw [List.map_cons, Order.climb_cons, List.map_append, List.map_congr_left hrest,
      hgains.level.climb]
    split <;> rfl

end Coverage.HandsOut

namespace Restocked

theorem nil (w : World) : Restocked [] w [] w where
  logs := World.Logs.of_orders rfl
  lost := Stock.Lost.refl w.stock
  told := ⟨[], .nil, by
    have hnone : ∀ n, w.climb [] n = [] := fun n => by
      unfold World.climb
      split <;> rfl
    simp [hnone]⟩
  asked := .nil

/-- All is up to what was told and sent, and to the orders and the stock. -/
theorem congr {a : Multiset Envelope} (h : Restocked items w l w₁)
    (hl : Deeds.Tally (Deeds.saved l) (Deeds.noted l) (Deeds.sent l) l') (ha : Aside a w₁ w') :
    Restocked items w l' w' where
  logs := h.logs.aside ha
  lost := by rw [ha.stock]; exact h.lost
  told := by rw [hl.noted]; exact h.told
  asked := by rw [hl.sent]; exact h.asked

/-- **One item after the other.** -/
theorem cons (hf : w.Flowing) (hitem : item ∉ items) (h : Coverage.HandsOut item w l w₁)
    (h' : Restocked items w₁ l' w') : Restocked (item :: items) w (l ++ l') w' := by
  have hne : ∀ i ∈ items, i ≠ item := fun i hi heq => hitem (heq ▸ hi)
  have hother := fun i hi => h.other (hne i hi)
  constructor
  case logs =>
    refine (h.logs.trans h'.logs).congr fun n _ _ => ?_
    rw [List.flatMap_cons]
    refine congrArg _ (List.flatMap_congr fun i hi => ?_)
    exact World.portionLine_congr ((hother i hi).1 n)
  case lost =>
    refine (h.lost.trans h'.lost).congr fun i => ?_
    by_cases hi : i = item
    · subst hi
      simp [hitem]
    · by_cases hmem : i ∈ items
      · obtain ⟨-, hstock, hshort, -⟩ := hother i hmem
        simp [hi, hmem, hstock, hshort]
      · simp [hi, hmem]
  case told =>
    obtain ⟨ts, hts, hperm⟩ := h'.told
    refine ⟨w.orders.keys.flatMap (w.news item) ++ ts, ?_, ?_⟩
    · rw [Deeds.noted_append]
      exact List.rel_append h.told hts
    · rw [h.logs.keys] at hperm
      refine (hperm.append_left _).trans ((List.flatMap_append_perm _ _ _).trans ?_)
      rw [List.flatMap_congr fun n _ => h.climb hitem n]
  case asked =>
    rw [Deeds.sent_append, List.flatMap_cons]
    refine List.rel_append (h.asked hf) ?_
    have hrows : (items.flatMap fun i => w.orders.keys.flatMap (w.cuts i)) =
        items.flatMap fun i => w₁.orders.keys.flatMap (w₁.cuts i) := by
      refine List.flatMap_congr fun i hi => ?_
      rw [h.logs.keys]
      exact List.flatMap_congr fun n _ => ((hother i hi).2.2.2 n).symm
    rw [hrows]
    exact h'.asked

end Restocked

/-- Of some items those that are kept in stock. -/
def Menu.stockedOf (m : Menu) (items : List String) : List String :=
  items.filter fun i => decide (m.isInstant i = .ok false)

namespace Engine

variable {c : Coverage} (d : Deadline)

/-- **Items are handed out one by one, each as if it were the only one.** -/
theorem does_restockAll (hw : w.Orderly c.menu) (ha : w.store.store.answers = true)
    (hf : w.Flowing) (hitems : items.Nodup) :
    WorkDoes rank (restockAll c d items) w fun l r w' =>
      r = .ok () ∧ w'.Orderly c.menu ∧ Restocked (c.menu.stockedOf items) w l w' := by
  induction items generalizing w with
  | nil => exact workDoes_pure ⟨rfl, hw, Restocked.nil w⟩
  | cons item r ih =>
    obtain ⟨hitem, hr⟩ := List.nodup_cons.1 hitems
    have hrest : item ∉ c.menu.stockedOf r := fun h => hitem (List.mem_filter.1 h).1
    unfold Menu.stockedOf at *
    rw [List.filter_cons]
    refine does_restockAll_cons d ?_
    by_cases hb : c.menu.isInstant item = .ok false
    · rw [if_pos (by simpa using hb)]
      have hpass : WorkEnds rank (c.restock d item) w _ := Coverage.ends_restock d hw item
      refine ((Coverage.does_restock d hw ha hb).and hpass.does).imp ?_
      rintro l res w₁ ⟨⟨h, hsettled⟩, new, hp, -⟩
      refine ⟨.inl (hsettled.resolve_right fun h => h.1 hf), ?_⟩
      refine (ih hp.orderly (hp.kept.answers.trans ha) (hp.kept.flowing hf) hr).imp ?_
      rintro l' r' w' ⟨hok, hw', h'⟩
      exact ⟨hok, hw', h'.cons hf hrest h⟩
    · rw [if_neg (by simpa using hb)]
      refine (Coverage.does_restock_idle d hw fun h => absurd h hb).imp ?_
      rintro l res _ ⟨hl, rfl, hres⟩
      refine ⟨hres, (ih hw ha hf hr).imp ?_⟩
      rintro l' r' w' ⟨hok, hw', h'⟩
      exact ⟨hok, hw', h'.congr (hl.still_append ⟨rfl, rfl, rfl⟩) (Aside.refl w')⟩

end Engine

end Takeaway
