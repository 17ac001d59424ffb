import Takeaway.Store.Script

/-!
What calls of the store answer and do. Main statements: a call that succeeds answers by what is
stored and changes it as it should, and without disturbances every call of a store that is
switched on succeeds.
-/

namespace Takeaway

/-- Two steps that succeed have succeeded one after the other. -/
theorem Except.of_bind_ok {ε α β : Type} {x : Except ε α} {f : α → Except ε β} {b : β}
    (h : x >>= f = .ok b) : ∃ a, x = .ok a ∧ f a = .ok b := by
  cases x with
  | error e => cases h
  | ok a => exact ⟨a, rfl, h⟩

theorem Except.of_mapError_ok {ε ε' α : Type} {x : Except ε α} {f : ε → ε'} {a : α}
    (h : x.mapError f = .ok a) : x = .ok a := by
  cases x with
  | error e => cases h
  | ok b => cases h; rfl

/-- A store that is switched off fails. -/
theorem Store.check_off {s : Store} (h : s.answers = false) :
    s.check = .error ⟨"in-memory store switched off"⟩ := by
  unfold check
  rw [h]
  rfl

theorem Store.check_on {s : Store} (h : s.answers = true) : s.check = .ok () := if_pos h

namespace ScriptedStore

variable {s s' : ScriptedStore}

/-! ### Calls that succeed -/

theorem get?_ok {n : OrderNumber} {r : Option Order} (h : s.get? n = .ok r) :
    r = s.store.orders.find? n := by
  obtain ⟨_, -, h⟩ := Except.of_bind_ok h
  obtain ⟨_, -, h⟩ := Except.of_bind_ok h
  cases h
  rfl

theorem find_ok (hs : s.frozen = none) {f : OrderFilter} {os : List Order}
    (h : s.find f = .ok os) : os = s.store.orders.values.filter f.accepts := by
  unfold find at h
  rw [hs] at h
  obtain ⟨_, -, h⟩ := Except.of_bind_ok h
  obtain ⟨found, hfound, h⟩ := Except.of_bind_ok h
  obtain ⟨_, -, hfound⟩ := Except.of_bind_ok hfound
  cases hfound
  cases h
  rfl

theorem nextNumber_ok {n : OrderNumber} (h : s.nextNumber = .ok (n, s')) :
    n = ⟨s.store.last + 1⟩ ∧
      s' = { s with store := { s.store with last := s.store.last + 1 } } := by
  obtain ⟨_, -, h⟩ := Except.of_bind_ok h
  obtain ⟨⟨k, store⟩, hk, h⟩ := Except.of_bind_ok h
  obtain ⟨_, -, hk⟩ := Except.of_bind_ok hk
  cases hk
  cases h
  exact ⟨rfl, rfl⟩

theorem upsert_ok {o : Order} {time : Timestamp} (h : s.upsert o time = .ok s') :
    s' = { s with store := { s.store with
      orders := s.store.orders.insert o.number (o.touch time)
      last := max s.store.last o.number.value } } := by
  obtain ⟨_, -, h⟩ := Except.of_bind_ok h
  obtain ⟨store, hstore, h⟩ := Except.of_bind_ok h
  obtain ⟨_, -, hstore⟩ := Except.of_bind_ok hstore
  cases hstore
  cases h
  rfl

/-! ### Stores without disturbances -/

section Undisturbed

variable (hscript : s.script = [])
include hscript

theorem check_of_script (c : Store.Call) (about : Option OrderNumber) :
    s.check c about = .ok () := by
  unfold check disturbance
  rw [hscript]
  cases about <;> rfl

theorem lag_of_script (c : Store.Call) : s.lag c = Span.zero := by
  unfold lag disturbance
  rw [hscript]
  rfl

/-! Switched off, every call fails. -/

theorem get?_off (hoff : s.store.answers = false) (n : OrderNumber) :
    ∃ f, s.get? n = .error f := by
  unfold get? Store.get?
  rw [check_of_script hscript, Store.check_off hoff]
  exact ⟨_, rfl⟩

theorem find_off (hoff : s.store.answers = false) (f : OrderFilter) :
    ∃ out, s.find f = .error out := by
  unfold find Store.find
  rw [check_of_script hscript, Store.check_off hoff]
  exact ⟨_, rfl⟩

theorem nextNumber_off (hoff : s.store.answers = false) : ∃ f, s.nextNumber = .error f := by
  unfold nextNumber Store.nextNumber
  rw [check_of_script hscript, Store.check_off hoff]
  exact ⟨_, rfl⟩

/-! Switched on, every call succeeds. -/

variable (hanswers : s.store.answers = true)
include hanswers

theorem get?_eq (n : OrderNumber) : s.get? n = .ok (s.store.orders.find? n) := by
  unfold get? Store.get?
  rw [check_of_script hscript, Store.check_on hanswers]
  rfl

theorem find_eq (hs : s.frozen = none) (f : OrderFilter) :
    s.find f = .ok (s.store.orders.values.filter f.accepts) := by
  unfold find Store.find
  rw [check_of_script hscript, Store.check_on hanswers, hs]
  rfl

theorem nextNumber_eq :
    s.nextNumber = .ok (⟨s.store.last + 1⟩,
      { s with store := { s.store with last := s.store.last + 1 } }) := by
  unfold nextNumber Store.nextNumber
  rw [check_of_script hscript, Store.check_on hanswers]
  rfl

theorem upsert_eq (o : Order) (time : Timestamp) :
    s.upsert o time = .ok { s with store := { s.store with
      orders := s.store.orders.insert o.number (o.touch time)
      last := max s.store.last o.number.value } } := by
  unfold upsert Store.upsert
  rw [check_of_script hscript, Store.check_on hanswers]
  rfl

end Undisturbed

end ScriptedStore

end Takeaway
