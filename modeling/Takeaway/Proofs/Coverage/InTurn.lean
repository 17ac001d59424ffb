import Takeaway.Proofs.Coverage.LowestFirst
import Takeaway.Proofs.Coverage.Pass
import Takeaway.Proofs.Flow.Anyhow
import Takeaway.Proofs.World.Portion

/-!
An item that is handed out, deed by deed. Main statement: each order is given its portion, whether
or not sending works; it is written back if there is any for it, the lowest number first, and the
kitchen is asked for what is still missing of an order that was given some.
-/

namespace Takeaway

open World (Aside Pass Orderly)

variable {rank : World.Rank} {w w₁ w' : World} {item : String}

namespace World

/-- None of an item is left, or none is missing. -/
def Spent (w : World) (item : String) : Prop := w.onHand item = 0 ∨ w.short item = 0

theorem shortOf_le_short (w : World) (n : OrderNumber) (item : String) :
    w.shortOf n item ≤ w.short item := by
  cases ho : w.orders.find? n with
  | none =>
    unfold shortOf
    rw [ho]
    exact Nat.zero_le _
  | some o =>
    rw [shortOf_eq ho]
    exact Index.le_total (fun x => x.short item) ho

theorem Spent.portion (h : w.Spent item) (n : OrderNumber) : w.portion n item = 0 := by
  have hle := w.shortOf_le_short n item
  unfold World.portion
  rcases h with h | h
  · rw [h]
    omega
  · omega

/-- Nothing comes of portions of which there are none. -/
theorem Spent.flatMap_eq_nil {β : Type} {g : OrderNumber → List β} (h : w.Spent item)
    (hg : ∀ n, w.portion n item = 0 → g n = []) : w.orders.keys.flatMap g = [] :=
  List.flatMap_eq_nil_iff.2 fun n _ => hg n (h.portion n)

/-! ### Worlds that are the same as far as orders and stock go -/

namespace Unmoved

variable (h : w.Unmoved w')
include h

theorem onHand (i : String) : w'.onHand i = w.onHand i := by
  unfold World.onHand
  rw [h.stock]

theorem short (i : String) : w'.short i = w.short i := by
  unfold World.short
  rw [h.orders]

theorem shortOf (n : OrderNumber) (i : String) : w'.shortOf n i = w.shortOf n i := by
  unfold World.shortOf
  rw [h.orders]

theorem portion (n : OrderNumber) (i : String) : w'.portion n i = w.portion n i := by
  refine portion_congr (h.shortOf n i) ?_ (h.onHand i)
  unfold ahead
  rw [h.orders]

end Unmoved

/-- What is not orders or stock does not matter. -/
theorem Logs.unmoved {g : OrderNumber → List Item} (h : w.Logs g w₁) (hw : w₁.Unmoved w') :
    w.Logs g w' := by
  constructor
  · rw [hw.orders, h.keys]
  · rw [hw.orders]
    exact h.gains

theorem Logs.of_unmoved {g : OrderNumber → List Item} (h : w₁.Logs g w') (hw : w.Unmoved w₁) :
    w.Logs g w' := by
  obtain ⟨hkeys, hgains⟩ := h
  rw [hw.orders] at hkeys hgains
  exact ⟨hkeys, hgains⟩

/-! ### The next in turn -/

/-- The order of a number, the lowest that misses an item, was given its portion. -/
structure Passed (item : String) (n : OrderNumber) (w w₁ : World) : Prop where
  stored : n ∈ w.orders.keys
  lower : ∀ k < n, w.portion k item = 0
  keys : w₁.orders.keys = w.orders.keys
  find : ∀ k, k ≠ n → w₁.orders.find? k = w.orders.find? k
  portion : ∀ k, w₁.portion k item = if k = n then 0 else w.portion k item

theorem passed_covered {m : Menu} {o : Order} (hw : w.Orderly m)
    (ho : w.orders.find? o.number = some o) (hlower : ∀ k < o.number, w.shortOf k item = 0)
    (hitem : m.isInstant item = .ok false) (hw₁ : (w.covered m [item] o).Unmoved w₁) :
    Passed item o.number w w₁ where
  stored := Index.mem_keys.2 ⟨o, ho⟩
  lower k hk := by
    have hle := w.portion_le_shortOf k item
    have h0 := hlower k hk
    omega
  keys := ((logs_covered (m := m) [item] ho).unmoved hw₁).keys
  find k hk := by rw [hw₁.orders, find?_covered_of_ne _ hw ho fun h => hk h.symm]
  portion k := by rw [hw₁.portion, portion_covered hw ho hlower hitem]

namespace Passed

variable {n : OrderNumber} (h : Passed item n w w₁)
include h

theorem portion_self : w₁.portion n item = 0 := by rw [h.portion, if_pos rfl]

theorem portion_other {k : OrderNumber} (hk : k ≠ n) : w₁.portion k item = w.portion k item := by
  rw [h.portion, if_neg hk]

/-- A row of what is there for each order begins with what is there for the next. -/
theorem row {β : Type} {g g₁ : OrderNumber → List β} (hg : ∀ k, w.portion k item = 0 → g k = [])
    (hself : g₁ n = []) (hother : ∀ k, k ≠ n → g₁ k = g k) :
    w.orders.keys.flatMap g = g n ++ w₁.orders.keys.flatMap g₁ := by
  have hascending : w.orders.keys.Pairwise (· < ·) := List.pairwise_map.2 w.orders.ascending
  have hmem := h.stored
  rw [h.keys]
  generalize w.orders.keys = keys at hascending hmem
  induction keys with
  | nil => cases hmem
  | cons k r ih =>
    obtain ⟨hk, hr⟩ := List.pairwise_cons.1 hascending
    rw [List.flatMap_cons, List.flatMap_cons]
    by_cases heq : k = n
    · subst heq
      rw [hself, List.nil_append]
      refine congrArg _ (List.flatMap_congr fun j hj => (hother j ?_).symm)
      rintro rfl
      exact Std.Irrefl.irrefl (r := (· < ·)) _ (hk _ hj)
    · have hn : n ∈ r := (List.mem_cons.1 hmem).resolve_left fun h => heq h.symm
      rw [hother k heq, hg k (h.lower k (hk n hn))]
      exact ih hr hn

theorem saves : w.orders.keys.flatMap (w.saves item) =
    w.saves item n ++ w₁.orders.keys.flatMap (w₁.saves item) :=
  h.row (fun _ => saves_of_zero) (saves_of_zero h.portion_self) fun k hk =>
    saves_congr (h.find k hk) (h.portion_other hk)

theorem news : w.orders.keys.flatMap (w.news item) =
    w.news item n ++ w₁.orders.keys.flatMap (w₁.news item) :=
  h.row (fun _ => news_of_zero) (news_of_zero h.portion_self) fun k hk =>
    news_congr (h.find k hk) (h.portion_other hk)

theorem cuts : w.orders.keys.flatMap (w.cuts item) =
    w.cuts item n ++ w₁.orders.keys.flatMap (w₁.cuts item) := by
  refine h.row (fun _ => cuts_of_zero) (cuts_of_zero h.portion_self) fun k hk => ?_
  refine cuts_congr ?_ (h.portion_other hk)
  unfold shortOf
  rw [h.find k hk]

end Passed

end World

namespace Coverage

/-- Of a single line a row that is not empty begins with all. -/
theorem eq_of_prefix_line {q : Quantity} {is : List Item} (h : is <+: line item q)
    (hne : line item q ≠ [] → is ≠ []) : is = line item q := by
  have hlength : (line item q).length ≤ 1 := by
    unfold line
    split <;> simp
  by_cases hq : line item q = []
  · rw [hq] at h ⊢
    exact List.prefix_nil.1 h
  · have hpos := List.length_pos_of_ne_nil (hne hq)
    exact h.eq_of_length (by have := h.length_le; omega)

/-- An item was handed out: every order was given its portion, and that is all that became of the
orders and of the stock. -/
structure Handed (item : String) (w w' : World) : Prop where
  logs : World.Logs (w.portionLine item) w w'
  lost : Stock.Lost (fun i => if i = item then min (w.onHand item) (w.short item) else 0)
    w.stock w'.stock

namespace Handed

variable {m : Menu} {o : Order}

/-- Where none is left or none is missing, there is nothing to be handed out. -/
theorem of_spent (h : w.Spent item) : Handed item w w where
  logs := by
    refine (World.Logs.of_orders rfl).congr fun n _ _ => ?_
    rw [World.portionLine_of_zero (h.portion n)]
  lost := by
    refine (Stock.Lost.refl w.stock).congr fun i => ?_
    split
    · rcases h with h | h <;> rw [h] <;> omega
    · rfl

theorem of_unmoved (h : Handed item w₁ w') (hw : w.Unmoved w₁) : Handed item w w' where
  logs := by
    refine (h.logs.of_unmoved hw).congr fun n _ _ => ?_
    exact World.portionLine_congr (hw.portion n item)
  lost := by
    have hlost := h.lost
    rwa [hw.stock, hw.onHand, hw.short] at hlost

/-- **One order after another**: first the next one, then all others as if it were not there. -/
theorem cons (hw : w.Orderly m) (ho : w.orders.find? o.number = some o)
    (hitem : m.isInstant item = .ok false) (hlower : ∀ k < o.number, w.shortOf k item = 0)
    (hw₁ : (w.covered m [item] o).Unmoved w₁) (h' : Handed item w₁ w') : Handed item w w' := by
  obtain ⟨hpacked, -⟩ := World.filled_next hw ho hlower hitem
  have hpassed := World.passed_covered hw ho hlower hitem hw₁
  have hlogs := (World.logs_covered (m := m) [item] ho).unmoved hw₁
  constructor
  case logs =>
    refine (hlogs.trans h'.logs).congr fun n _ _ => ?_
    by_cases hn : n = o.number
    · subst hn
      rw [if_pos rfl, hpacked, World.portionLine_of_zero hpassed.portion_self, List.append_nil]
    · rw [if_neg (Ne.symm hn), World.portionLine_congr (hpassed.portion_other hn), List.nil_append]
  case lost =>
    have hlost := World.lost_next hw ho hlower hitem
    have hleft := World.onHand_covered_next hw ho hlower hitem
    have hmissing := World.short_covered_next hw ho hlower hitem
    rw [← hw₁.stock] at hlost
    rw [← hw₁.onHand] at hleft
    rw [← hw₁.short] at hmissing
    refine (hlost.trans h'.lost).congr fun i => ?_
    split <;> omega

end Handed

/-- An item was handed out: every order was given its portion, and what was written, told and asked
for is what comes of that. -/
structure HandsOut (item : String) (w : World) (l : List Deed) (w' : World) : Prop where
  logs : World.Logs (w.portionLine item) w w'
  lost : Stock.Lost (fun i => if i = item then min (w.onHand item) (w.short item) else 0)
    w.stock w'.stock
  saved : Deeds.saved l = w.orders.keys.flatMap (w.saves item)
  told : List.Forall₂ Tells (w.orders.keys.flatMap (w.news item)) (Deeds.noted l)
  tried : Tried (w.orders.keys.flatMap (w.cuts item)) (Deeds.sent l)
  asked : w.Flowing → List.Forall₂ Asks (w.orders.keys.flatMap (w.cuts item)) (Deeds.sent l)
  idle : w.Spent item → w' = w

namespace HandsOut

variable {l l' : List Deed} {m : Menu} {o : Order} {d : Deadline}

theorem after_still (h : HandsOut item w l' w') (hl : Deeds.Still l) :
    HandsOut item w (l ++ l') w' where
  logs := h.logs
  lost := h.lost
  saved := by rw [Deeds.saved_append, hl.saved]; exact h.saved
  told := by rw [Deeds.noted_append, hl.noted]; exact h.told
  tried := by rw [Deeds.sent_append, hl.sent]; exact h.tried
  asked := by rw [Deeds.sent_append, hl.sent]; exact h.asked
  idle := h.idle

/-- Where none is left or none is missing, nothing is done. -/
theorem of_spent (h : w.Spent item) (hl : Deeds.Still l) : HandsOut item w l w := by
  have hcuts : w.orders.keys.flatMap (w.cuts item) = [] :=
    h.flatMap_eq_nil fun _ => World.cuts_of_zero
  constructor
  case logs => exact (Handed.of_spent h).logs
  case lost => exact (Handed.of_spent h).lost
  case saved => rw [h.flatMap_eq_nil fun _ => World.saves_of_zero, hl.saved]
  case told =>
    rw [h.flatMap_eq_nil fun _ => World.news_of_zero, hl.noted]
    exact .nil
  case tried =>
    rw [hcuts, hl.sent]
    exact .nil
  case asked =>
    rw [hcuts, hl.sent]
    exact fun _ => .nil
  case idle => exact fun _ => rfl

/-- **One order after another**: first the next one, then all others as if it were not there. -/
theorem cons {r : Except Fault Outcome} (hw : w.Orderly m)
    (ho : w.orders.find? o.number = some o) (hitem : m.isInstant item = .ok false)
    (hlower : ∀ k < o.number, w.shortOf k item = 0) (hshort : 0 < o.short item)
    (hstock : w.onHand item ≠ 0)
    (h : Covering o (filled m [item] o w.stock)
      (if (filled m [item] o w.stock).packed = [] then []
        else [(filled m [item] o w.stock).order]) (w.covered m [item] o) l r w₁)
    (h' : HandsOut item w₁ l' w') : HandsOut item w (l ++ l') w' := by
  have hnext := World.portion_next hw ho hlower
  have hpos : 0 < w.portion o.number item := by omega
  obtain ⟨hpacked, hrequests⟩ := World.filled_next hw ho hlower hitem
  obtain ⟨hsaves, hnews, hcuts⟩ := World.deeds_next hw ho hlower hitem hpos
  obtain ⟨new, hnew⟩ := h.left
  have hpassed := World.passed_covered hw ho hlower hitem hnew.unmoved
  have hhanded := Handed.cons hw ho hitem hlower hnew.unmoved ⟨h'.logs, h'.lost⟩
  have hne : (filled m [item] o w.stock).packed ≠ [] := by
    rw [hpacked]
    unfold World.portionLine
    rw [Ne, line_eq_nil, hw.portion_units]
    omega
  constructor
  case logs => exact hhanded.logs
  case lost => exact hhanded.lost
  case saved =>
    rw [Deeds.saved_append, h.saved, h'.saved, hpassed.saves, hsaves, if_neg hne]
  case told =>
    rw [Deeds.noted_append, hpassed.news, hnews]
    exact List.rel_append h.told h'.told
  case tried =>
    rw [Deeds.sent_append, hpassed.cuts, hcuts]
    refine Tried.append ?_ h'.tried
    obtain ⟨is, hprefix, htried, -, hsome⟩ := h.tried
    rw [hrequests] at hprefix hsome ⊢
    rwa [eq_of_prefix_line hprefix hsome] at htried
  case asked =>
    intro hf
    have hcovered := (World.pass_covered [item] hw ho).kept.flowing hf
    rw [Deeds.sent_append, hpassed.cuts, hcuts]
    exact List.rel_append (h.flowing hcovered).2 (h'.asked (hnew.kept.flowing hcovered))
  case idle =>
    intro hspent
    have := hspent.portion o.number
    omega

end HandsOut

/-- Where the kitchen is to be asked for an item, none of it is left. -/
theorem onHand_of_requests {m : Menu} {o : Order} (hw : w.Orderly m)
    (ho : w.orders.find? o.number = some o) (hitem : m.isInstant item = .ok false)
    (hlower : ∀ k < o.number, w.shortOf k item = 0)
    (hsome : (filled m [item] o w.stock).requests ≠ []) :
    (w.covered m [item] o).onHand item = 0 := by
  have hnext := World.portion_next hw ho hlower
  obtain ⟨-, hrequests⟩ := World.filled_next hw ho hlower hitem
  have hleft := World.onHand_covered_next hw ho hlower hitem
  have hmore : o.short item - w.portion o.number item ≠ 0 := by
    intro h0
    rw [hrequests, h0] at hsome
    exact hsome rfl
  omega

/-- A pass for one item fails over the request for what there was too little of. -/
theorem covering_failed {m : Menu} {o : Order} {l : List Deed} {f : Fault} (hw : w.Orderly m)
    (ho : w.orders.find? o.number = some o) (hitem : m.isInstant item = .ok false)
    (hlower : ∀ k < o.number, w.shortOf k item = 0) (hshort : 0 < o.short item)
    (hstock : w.onHand item ≠ 0)
    (h : Covering o (filled m [item] o w.stock)
      (if (filled m [item] o w.stock).packed = [] then []
        else [(filled m [item] o w.stock).order]) (w.covered m [item] o) l (.error f) w₁) :
    w₁.onHand item = 0 ∧ ¬ w.Flowing ∧ w.cuts item o.number ≠ [] := by
  have hnext := World.portion_next hw ho hlower
  obtain ⟨-, -, hcuts⟩ := World.deeds_next hw ho hlower hitem (by omega)
  obtain ⟨new, hnew⟩ := h.left
  have hsome : (filled m [item] o w.stock).requests ≠ [] := by
    intro h0
    obtain ⟨out, hout⟩ := h.settled h0
    cases hout
  refine ⟨?_, fun hf => ?_, ?_⟩
  · rw [hnew.onHand]
    exact onHand_of_requests hw ho hitem hlower hsome
  · obtain ⟨⟨out, hout⟩, -⟩ := h.flowing ((World.pass_covered [item] hw ho).kept.flowing hf)
    cases hout
  · rw [hcuts]
    simpa using hsome

/-! ### Who is next -/

/-- Orders that an item is to be handed to: stored ones that ask for it, in the order of their
numbers, and all that miss it as long as there are units. -/
structure InLine (item : String) (orders : List Order) (w : World) : Prop where
  stored : ∀ o ∈ orders, ∃ o', w.orders.find? o.number = some o' ∧ o'.requests item = true
  ascending : (orders.map fun o => o.number).Pairwise (· < ·)
  all : Candidates w item orders

namespace InLine

variable {m : Menu} {o candidate : Order} {orders : List Order}

/-- When nobody is in line, none is missing or none is left. -/
theorem spent (h : InLine item [] w) : w.Spent item := by
  refine h.all.imp_right fun hnone => World.short_eq_zero fun n => ?_
  by_contra hne
  obtain ⟨o, ho, -⟩ := hnone n (Nat.pos_of_ne_zero hne)
  cases ho

/-- Whoever misses nothing may leave. -/
theorem skip (h : InLine item (candidate :: orders) w)
    (hnone : w.shortOf candidate.number item = 0) : InLine item orders w where
  stored := (List.forall_mem_cons.1 h.stored).2
  ascending := (List.pairwise_cons.1 h.ascending).2
  all := h.all.tail le_rfl (fun _ => le_rfl) (.inr hnone)

/-- Nobody before the one who is next misses any. -/
theorem lower (h : InLine item (candidate :: orders) w) (hstock : w.onHand item ≠ 0) :
    ∀ k < candidate.number, w.shortOf k item = 0 :=
  h.all.lower (List.pairwise_cons.1 h.ascending).1 hstock

/-- When the next one was served, the line moves up. -/
theorem serve (h : InLine item (candidate :: orders) w) (hw : w.Orderly m)
    (ho : w.orders.find? o.number = some o) (hnumber : o.number = candidate.number)
    (hitem : m.isInstant item = .ok false) (hw₁ : (w.covered m [item] o).Unmoved w₁) :
    InLine item orders w₁ := by
  have hpass := World.pass_covered [item] hw ho
  constructor
  case stored =>
    intro x hx
    obtain ⟨x₁, hx₁, hreq₁⟩ := (List.forall_mem_cons.1 h.stored).2 x hx
    obtain ⟨x₂, hx₂, hext⟩ := hpass.served.forth _ x₁ hx₁
    exact ⟨x₂, by rw [hw₁.orders]; exact hx₂, by rw [hext.requests]; exact hreq₁⟩
  case ascending => exact (List.pairwise_cons.1 h.ascending).2
  case all =>
    have hone := covered_one (c := ⟨m, {}⟩) hw ho hitem
    rw [hnumber] at hone
    apply h.all.tail
    · rw [hw₁.onHand]
      exact hpass.onHand_le hitem
    · intro n
      rw [hw₁.shortOf]
      exact hpass.served.shortOf_le n item
    · rw [hw₁.onHand, hw₁.shortOf]
      exact hone

end InLine

/-! ### The flow -/

variable {c : Coverage} (d : Deadline)

/-- What is done about a candidate: nothing when there are no units, nothing when it misses none,
and else it is covered. -/
theorem does_handOut_cons (hw : w.Orderly c.menu) (ha : w.store.store.answers = true)
    {candidate o : Order} (ho : w.orders.find? candidate.number = some o)
    (hreq : o.requests item = true) {orders : List Order}
    {q : List Deed → Except Fault (List Outcome) → World → Prop}
    (hstop : w.onHand item = 0 → ∀ l, Deeds.Still l → q l (.ok []) w)
    (hskip : o.short item = 0 → ∀ l, Deeds.Still l →
      WorkDoes rank (c.handOut d item orders) w fun l' => q (l ++ l'))
    (hserve : 0 < o.short item → w.onHand item ≠ 0 → ∀ l, Deeds.Still l → WorkDoes rank (do
      let outcome ← c.cover d o [item]
      return outcome :: (← c.handOut d item orders)) w fun l' => q (l ++ l')) :
    WorkDoes rank (c.handOut d item (candidate :: orders)) w q := by
  have hsound := (hw.sound _ o ho).1
  unfold handOut
  refine Flow.Does.bind_lift (p := fun l q w' => Deeds.Still l ∧ q = w.stock.onHand item ∧ w' = w)
    (Flow.does_ask ⟨⟨rfl, rfl, rfl⟩, rfl, rfl⟩) ?_
  rintro l₁ _ w ⟨h₁, rfl, rfl⟩
  split
  · next h0 =>
    refine workDoes_pure ?_
    rw [List.append_nil]
    exact hstop h0 l₁ h₁
  next hstock =>
  refine WorkDoes.bind ((ends_load d hw.script candidate.number).still (each_load _ d)) ?_ ?_
  · rintro l₂ o' w ⟨h₂, rfl, hload⟩
    obtain ⟨-, ho'⟩ := (hload o').1 rfl
    obtain rfl := Option.some.inj (ho.symm.trans ho')
    have hstill : Deeds.Still (l₁ ++ l₂) := h₁.still_append h₂
    have hon : ∀ missing : Int, missing = o.short item →
        WorkDoes rank (if missing ≤ 0 then c.handOut d item orders else do
          let outcome ← c.cover d o [item]
          return outcome :: (← c.handOut d item orders)) w fun l' => q (l₁ ++ (l₂ ++ l')) := by
      rintro _ rfl
      simp only [← List.append_assoc]
      split
      · exact hskip (by omega) _ hstill
      · exact hserve (by omega) hstock _ hstill
    split
    · have hmissing : o.missing? item = .ok (o.missing item) := if_pos hreq
      rw [hmissing]
      exact hon _ (hsound.missing_eq item)
    · next hclosed =>
      have h0 := hsound.short_eq_zero (Bool.eq_false_iff.2 hclosed) item
      exact hon 0 (by omega)
  · rintro l f w ⟨-, rfl, hload⟩
    cases (hload o).2 ⟨ha, ho⟩

/-- How handing out an item ends: well, or with a request to the kitchen that could not be sent. -/
def Settled (item : String) (w : World) (r : Except Fault (List Outcome)) : Prop :=
  (∃ outs, r = .ok outs) ∨ ¬ w.Flowing ∧ w.orders.keys.flatMap (w.cuts item) ≠ []

theorem does_handOut (hw : w.Orderly c.menu) (ha : w.store.store.answers = true)
    (hitem : c.menu.isInstant item = .ok false) {orders : List Order} (h : InLine item orders w) :
    WorkDoes rank (c.handOut d item orders) w fun l r w' =>
      HandsOut item w l w' ∧ Settled item w r := by
  induction orders generalizing w with
  | nil => exact workDoes_pure ⟨HandsOut.of_spent h.spent Deeds.still_nil, .inl ⟨_, rfl⟩⟩
  | cons candidate r ih =>
    obtain ⟨o, ho, hreq⟩ := (List.forall_mem_cons.1 h.stored).1
    obtain ⟨-, hnumber⟩ := hw.sound _ o ho
    refine does_handOut_cons d hw ha ho hreq ?_ ?_ ?_
    · exact fun h0 l hl => ⟨HandsOut.of_spent (.inl h0) hl, .inl ⟨_, rfl⟩⟩
    · intro h0 l hl
      have hnone : w.shortOf candidate.number item = 0 := by rw [World.shortOf_eq ho]; exact h0
      refine (ih hw ha (h.skip hnone)).imp ?_
      rintro l' res w' ⟨h, hres⟩
      exact ⟨h.after_still hl, hres⟩
    · intro hshort hstock l hl
      rw [← hnumber] at ho
      have hlower : ∀ k < o.number, w.shortOf k item = 0 := hnumber ▸ h.lower hstock
      refine WorkDoes.bind (does_cover d hw ha ho fun i hi => ?_) ?_ ?_
      · rw [List.mem_singleton.1 hi]
        exact hreq
      · rintro l₁ out w₁ h₁
        obtain ⟨new, hnew⟩ := h₁.left
        have hpass := pass_of_covered hw ho hnew
        have hpassed := World.passed_covered hw ho hlower hitem hnew.unmoved
        have hrest := ih hpass.orderly (hpass.kept.answers.trans ha)
          (h.serve hw ho hnumber hitem hnew.unmoved)
        refine WorkDoes.bind hrest ?_ ?_
        · rintro l₂ outs w₂ ⟨h₂, -⟩
          refine workDoes_pure ⟨?_, .inl ⟨_, rfl⟩⟩
          rw [List.append_nil]
          exact (h₂.cons hw ho hitem hlower hshort hstock h₁).after_still hl
        · rintro l₂ f w₂ ⟨h₂, ⟨outs, hf⟩ | ⟨hf, hcuts⟩⟩
          · cases hf
          refine ⟨(h₂.cons hw ho hitem hlower hshort hstock h₁).after_still hl, .inr ⟨?_, ?_⟩⟩
          · exact fun hw => hf (hpass.kept.flowing hw)
          · rw [hpassed.cuts]
            exact List.append_ne_nil_of_right_ne_nil _ hcuts
      · rintro l₁ f w₁ h₁
        obtain ⟨new, hnew⟩ := h₁.left
        have hpassed := World.passed_covered hw ho hlower hitem hnew.unmoved
        obtain ⟨hnone, hf, hcuts⟩ := covering_failed hw ho hitem hlower hshort hstock h₁
        have hrest := HandsOut.of_spent (.inl hnone) Deeds.still_nil
        have hall := hrest.cons hw ho hitem hlower hshort hstock h₁
        rw [List.append_nil] at hall
        refine ⟨hall.after_still hl, .inr ⟨hf, ?_⟩⟩
        rw [hpassed.cuts]
        exact List.append_ne_nil_of_left_ne_nil hcuts _

/-- The open orders that ask for an item are in line for it. -/
theorem inLine_waiting {m : Menu} (hw : w.Orderly m) (item : String) : InLine item
    (w.orders.values.filter (OrderFilter.waiting.requesting item).accepts) w := by
  have hmem : ∀ {o : Order}, o ∈ w.orders.values.filter
      (OrderFilter.waiting.requesting item).accepts ↔
      w.orders.find? o.number = some o ∧ o.status.isOpen = true ∧ o.requests item = true := by
    intro o
    rw [List.mem_filter, hw.mem_values, OrderFilter.accepts_requesting, Bool.and_eq_true]
  constructor
  case stored => exact fun o ho => ⟨o, (hmem.1 ho).1, (hmem.1 ho).2.2⟩
  case ascending => exact hw.numbers_ascending.sublist (List.filter_sublist.map _)
  case all =>
    refine .inr fun n hn => ?_
    obtain ⟨o, ho, rfl, hopen, hreq⟩ := hw.isOpen_of_shortOf hn
    exact ⟨o, hmem.2 ⟨ho, hopen, hreq⟩, rfl⟩

theorem each_search (f : OrderFilter) (d : Deadline) : EachWork (fun a => a.isStill = true)
    (Work.within d (Work.ofStore (searchOrders f))) := by
  have hsearch : (Flow.ask (.search f)).Each fun a => a.isStill = true := Flow.each_ask rfl
  exact each_call .find hsearch rfl d

/-- **Handing out an item gives each order its portion.** -/
theorem does_restock (hw : w.Orderly c.menu) (ha : w.store.store.answers = true)
    (hitem : c.menu.isInstant item = .ok false) :
    WorkDoes rank (c.restock d item) w fun l r w' => HandsOut item w l w' ∧ Settled item w r := by
  unfold restock
  rw [hitem]
  refine workDoes_bind_ofRefusal (fun b hb => ?_) (by rintro _ ⟨⟩)
  cases hb
  refine WorkDoes.bind ((ends_search d hw.toTidy _).still (each_search _ d)) ?_ ?_
  · rintro l₁ os w ⟨h₁, rfl, hos⟩
    obtain ⟨-, rfl⟩ := (hos os).1 rfl
    refine (does_handOut d hw ha hitem (inLine_waiting hw item)).imp ?_
    rintro l₂ r w' ⟨h, hr⟩
    exact ⟨h.after_still h₁, hr⟩
  · rintro l f w ⟨-, rfl, hno⟩
    exact absurd ((hno _).2 ⟨ha, rfl⟩) (by simp)

end Coverage

end Takeaway
