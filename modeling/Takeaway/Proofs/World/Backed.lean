import Takeaway.Proofs.Flow.Fair
import Takeaway.Proofs.Index
import Takeaway.Proofs.World.Perform

/-!
Worlds whose stored orders are all backed by what was taken for them. Main statements: such a world
gives answers that may be relied on, an action that is permitted leaves it such a world, and no
action brings more units about than it adds to the stock.
-/

namespace Takeaway

/-- What an action hands to the stock. -/
def Action.brought : Action → String → Nat
  | .add item q, i => if item = i then q.units else 0
  | _, _ => 0

namespace World

/-- Units of an item that are packed, over all stored orders. -/
def packed (w : World) (item : String) : Nat := w.orders.total fun o => o.packedOf item

/-- Every stored order is backed, and stands under its number. -/
structure Backed (m : Menu) (g : Takings) (w : World) : Prop where
  orders : ∀ n o, w.orders.find? n = some o → o.Backed m g ∧ o.number = n
  current : w.store.frozen = none

/-- Every stored order is sound, and stands under its number. -/
def Sound (m : Menu) (w : World) : Prop :=
  ∀ n o, w.orders.find? n = some o → o.Sound m ∧ o.number = n

/-- What an action may be answered, and what it leaves behind. A call of the store may fail, as may
an attempt to send, and then nothing has happened. -/
inductive Answers (w : World) : (a : Action) → a.Answer → World → Prop
  | performed (a : Action) : Answers w a (w.perform a).1 (w.perform a).2
  | noNumber (f : Outage) : Answers w .nextNumber (.error f) w
  | notFetched (n : OrderNumber) (f : Outage) : Answers w (.fetch n) (.error f) w
  | notSearched (f : OrderFilter) (out : Outage) : Answers w (.search f) (.error out) w
  | notSaved (o : Order) (f : Outage) : Answers w (.save o) (.error f) w
  | notSent (e : Envelope) (f : MessageFailure) : Answers w (.send e) (.error f) w

variable {m : Menu} {g : Takings} {w w' : World}

/-! ### Answers that may be relied on -/

namespace Backed

protected theorem sound (h : w.Backed m g) : w.Sound m := fun n o ho =>
  ⟨(h.orders n o ho).1.sound, (h.orders n o ho).2⟩

theorem mono {g' : Takings} (h : w.Backed m g) (hg : g ≤ g') : w.Backed m g' :=
  ⟨fun n o ho => ⟨(h.orders n o ho).1.mono hg, (h.orders n o ho).2⟩, h.current⟩

/-- What is said of the stored orders depends on the store alone. -/
theorem of_store (h : w.Backed m g) (hs : w'.store = w.store) : w'.Backed m g := by
  constructor
  · rw [World.orders, hs]; exact h.orders
  · rw [hs]; exact h.current

theorem relies (h : w.Backed m g) (a : Action) : a.Relies m g (w.perform a).1 := by
  cases a with
  | fetch n => exact fun o ho => h.orders n o (ScriptedStore.get?_ok ho).symm
  | search f =>
    intro os hos o ho
    rw [ScriptedStore.find_ok h.current hos] at ho
    obtain ⟨n, hn⟩ := Index.mem_values.1 (List.mem_filter.1 ho).1
    exact (h.orders n o hn).1
  | _ => trivial

/-- An action that is permitted leaves every stored order backed. -/
theorem perform (h : w.Backed m g) {a : Action} (ha : a.Permits m g) (n : OrderNumber) :
    (w.perform a).2.Backed m (a.credit n g (w.perform a).1) := by
  have hg := a.le_credit n g (w.perform a).1
  cases a with
  | nextNumber =>
    rcases w.nextNumber_cases with ⟨f, heq⟩ | heq <;> rw [heq]
    · exact h
    · exact ⟨h.orders, h.current⟩
  | save o =>
    rcases w.save_cases o with ⟨f, heq⟩ | heq <;> rw [heq]
    · exact h
    · refine ⟨fun k x hx => ?_, h.current⟩
      rcases Index.find?_insert hx with ⟨rfl, rfl⟩ | ⟨-, hx⟩
      · exact ⟨⟨ha.sound.touch _, ha.taken⟩, rfl⟩
      · exact h.orders k x hx
  | take item q =>
    refine (h.mono hg).of_store ?_
    rcases w.take_cases item q with ⟨f, heq⟩ | ⟨s, -, heq⟩ <;> rw [heq]
    rfl
  | add item q =>
    obtain ⟨counts, heq⟩ := w.add_eq item q
    refine h.of_store ?_
    rw [heq]
  | _ => exact h.of_store rfl

theorem answers (h : w.Backed m g) {a : Action} (ha : a.Permits m g) {r : a.Answer}
    (hr : w.Answers a r w') (n : OrderNumber) :
    a.Relies m g r ∧ w'.Backed m (a.credit n g r) := by
  cases hr with
  | performed => exact ⟨h.relies a, h.perform ha n⟩
  | notFetched k f => exact ⟨(by rintro o ⟨⟩), h⟩
  | notSearched k f => exact ⟨(by rintro o ⟨⟩), h⟩
  | _ => exact ⟨trivial, h⟩

end Backed

/-! ### Units that went in -/

/-- What is in stock or was taken does not come to more than was ever handed to the stock. -/
def Accounted (m : Menu) (g : Takings) (added : String → Nat) (w : World) : Prop :=
  ∀ item, m.isInstant item = .ok false → ∀ ns : Finset OrderNumber,
    w.onHand item + ∑ n ∈ ns, g n item ≤ added item

theorem accounted_mono {added added' : String → Nat} (h : w.Accounted m g added)
    (hle : added ≤ added') : w.Accounted m g added' := fun item hi ns =>
  Nat.le_trans (h item hi ns) (hle item)

theorem accounted_of_stock {added : String → Nat} (h : w.Accounted m g added)
    (hs : w'.stock = w.stock) : w'.Accounted m g added := fun item hi ns => by
  unfold onHand
  rw [hs]
  exact h item hi ns

theorem sum_plus (g : Takings) (n : OrderNumber) (item i : String) (units : Nat)
    (ns : Finset OrderNumber) : ∑ k ∈ ns, g.plus n item units k i ≤
      (∑ k ∈ ns, g k i) + if item = i then units else 0 := by
  unfold Takings.plus
  rw [Finset.sum_add_distrib]
  refine Nat.add_le_add_left ?_ _
  by_cases hi : i = item
  · subst hi
    simp only [and_true, if_true, Finset.sum_ite_eq']
    split <;> omega
  · simp [hi]

theorem accounted_take {added : String → Nat} (h : w.Accounted m g added) (item : String)
    (q : Quantity) (n : OrderNumber) : (w.perform (.take item q)).2.Accounted m
      ((Action.take item q).credit n g (w.perform (.take item q)).1) added := by
  rcases w.take_cases item q with ⟨f, heq⟩ | ⟨s, hs, heq⟩ <;> rw [heq]
  · exact accounted_of_stock h rfl
  · obtain ⟨hself, hne⟩ := Stock.onHand_take hs
    intro i hi ns
    have hle := h i hi ns
    have hsum := sum_plus g n item i q.units ns
    show (s.onHand i).units + ∑ k ∈ ns, g.plus n item q.units k i ≤ added i
    unfold onHand at hle
    by_cases heq : item = i
    · subst heq
      rw [if_pos rfl] at hsum
      omega
    · rw [if_neg heq] at hsum
      rw [hne i heq]
      omega

theorem onHand_add_le (w : World) (item i : String) (q : Quantity) :
    (w.perform (.add item q)).2.onHand i ≤ w.onHand i + (Action.add item q).brought i := by
  obtain ⟨counts, heq⟩ := w.add_eq item q
  rw [heq]
  show ((w.stock.add item q).onHand i).units ≤ (w.stock.onHand i).units + _
  by_cases heq : item = i
  · subst heq
    rw [Stock.onHand_add, Action.brought, if_pos rfl]
    exact Nat.min_le_left _ _
  · rw [Stock.onHand_add_of_ne heq]
    exact Nat.le_add_right _ _

/-- No action brings more units about than it adds to the stock. -/
theorem accounted_answers {added : String → Nat} (h : w.Accounted m g added) {a : Action}
    {r : a.Answer} (hr : w.Answers a r w') (n : OrderNumber) :
    w'.Accounted m (a.credit n g r) (added + a.brought) := by
  have hmore : added ≤ added + a.brought := fun _ => Nat.le_add_right _ _
  cases hr with
  | performed =>
    cases a with
    | take item q => exact accounted_mono (accounted_take h item q n) hmore
    | add item q =>
      intro i hi ns
      have hle := h i hi ns
      have hadd := onHand_add_le w item i q
      show _ + ∑ k ∈ ns, g k i ≤ added i + (Action.add item q).brought i
      omega
    | nextNumber =>
      refine accounted_mono (accounted_of_stock h ?_) hmore
      rcases w.nextNumber_cases with ⟨f, heq⟩ | heq <;> rw [heq]
      rfl
    | save o =>
      refine accounted_mono (accounted_of_stock h ?_) hmore
      rcases w.save_cases o with ⟨f, heq⟩ | heq <;> rw [heq]
      rfl
    | _ => exact accounted_mono (accounted_of_stock h rfl) hmore
  | _ => exact accounted_mono h hmore

end World

end Takeaway
