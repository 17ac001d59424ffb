import Mathlib.Algebra.Group.Nat.Defs
import Mathlib.Order.Bounds.Basic
import Takeaway.Message.Broker

/-!
What a broker keeps and what a reader gets of it. Main statements: a broker keeps the last
messages, as many as its capacity, which is a power of two; and a reader gets the next message that
it has not read, or is told how many messages it missed and goes on with the oldest one kept.
-/

namespace Takeaway.Broker

variable {b b' : Broker} {l : List Delivery} {d : Delivery}

/-! ### Capacity -/

/-- The capacity is the least power of two with room for as many messages as were asked for. -/
theorem roundedUp_isLeast (n : Nat) : IsLeast {c | (∃ k, c = 2 ^ k) ∧ n ≤ c} (roundedUp n) := by
  unfold roundedUp
  split
  · next hn =>
    refine ⟨⟨⟨0, rfl⟩, hn⟩, ?_⟩
    rintro _ ⟨⟨k, rfl⟩, -⟩
    exact Nat.one_le_two_pow
  · next hn =>
    have hlt : n - 1 < 2 ^ ((n - 1).log2 + 1) := Nat.lt_log2_self
    refine ⟨⟨⟨_, rfl⟩, show n ≤ 2 ^ _ by omega⟩, ?_⟩
    rintro _ ⟨⟨k, rfl⟩, hk⟩
    have hlog : (n - 1).log2 < k := (Nat.log2_lt (by omega)).2 (by omega)
    exact Nat.pow_le_pow_right Nat.zero_lt_two hlog

theorem roundedUp_pos (n : Nat) : 0 < roundedUp n := by
  obtain ⟨⟨⟨k, hk⟩, -⟩, -⟩ := roundedUp_isLeast n
  rw [hk]
  exact Nat.two_pow_pos k

/-! ### Sending -/

/-- A broker with some more messages. -/
def deliverAll (b : Broker) (l : List Delivery) : Broker := l.foldl deliver b

theorem capacity_deliverAll (b : Broker) (l : List Delivery) :
    (b.deliverAll l).capacity = b.capacity := by
  induction l generalizing b with
  | nil => rfl
  | cons d l ih => exact ih (b.deliver d)

/-- An attempt to send delivers the message, or changes nothing but the number of attempts that are
still to fail. -/
theorem send_cases (b : Broker) (topic : String) (e : Envelope) :
    b.send topic e = (.ok (), b.deliver ⟨topic, e⟩) ∨
      ∃ f n, b.send topic e = (.error f, { b with failing := n }) := by
  obtain ⟨capacity, kept, total, records, history, failing, isUp, isClosed⟩ := b
  cases isUp with
  | false => exact .inr ⟨_, failing, rfl⟩
  | true =>
    cases failing with
    | zero => exact .inl rfl
    | succ n => exact .inr ⟨_, n, rfl⟩

/-! ### What is kept -/

/-- Of the messages `l`, which are all that were sent, the broker keeps the last ones. -/
structure Keeps (b : Broker) (l : List Delivery) : Prop where
  capacity_pos : 0 < b.capacity
  total : b.total = l.length
  kept : b.kept = l.drop (l.length - b.capacity)

theorem Keeps.of_same (h : b.Keeps l) (hcapacity : b'.capacity = b.capacity)
    (htotal : b'.total = b.total) (hkept : b'.kept = b.kept) : b'.Keeps l := by
  refine ⟨?_, htotal.trans h.total, ?_⟩
  · rw [hcapacity]
    exact h.capacity_pos
  · rw [hkept, hcapacity]
    exact h.kept

theorem keeps_withCapacity (n : Nat) : (withCapacity n).Keeps [] :=
  ⟨roundedUp_pos n, rfl, List.drop_nil.symm⟩

theorem Keeps.deliver (h : b.Keeps l) (d : Delivery) : (b.deliver d).Keeps (l ++ [d]) := by
  refine ⟨h.capacity_pos, ?_, ?_⟩
  · simp only [Broker.deliver, h.total, List.length_append, List.length_singleton]
  · have hpos : 0 < b.capacity := h.capacity_pos
    have hfront : l.drop (l.length - b.capacity) ++ [d] = (l ++ [d]).drop (l.length - b.capacity) :=
      (List.drop_append_of_le_length (by omega)).symm
    simp only [Broker.deliver, h.kept, List.length_drop, List.length_append, List.length_singleton]
    rw [hfront, List.drop_drop]
    congr 1
    omega

theorem Keeps.deliverAll (h : b.Keeps l) (l' : List Delivery) :
    (b.deliverAll l').Keeps (l ++ l') := by
  induction l' generalizing b l with
  | nil => rwa [List.append_nil]
  | cons d l' ih =>
    rw [List.append_cons]
    exact ih (h.deliver d)

theorem Keeps.length_kept (h : b.Keeps l) : b.kept.length ≤ b.total := by
  rw [h.kept, h.total, List.length_drop]
  omega

/-- The messages that are no longer kept are those before the last ones. -/
theorem Keeps.gone (h : b.Keeps l) : b.gone = l.length - b.capacity := by
  unfold Broker.gone
  rw [h.total, h.kept, List.length_drop]
  omega

/-! ### The record -/

/-- The broker makes a record of all messages, and `l` is what is in it. -/
structure Records (b : Broker) (l : List Delivery) : Prop where
  records : b.records = true
  history : b.history = l

theorem Records.deliver (h : b.Records l) (d : Delivery) : (b.deliver d).Records (l ++ [d]) := by
  refine ⟨h.records, ?_⟩
  rw [Broker.deliver, if_pos h.records, h.history]

theorem Records.deliverAll (h : b.Records l) (l' : List Delivery) :
    (b.deliverAll l').Records (l ++ l') := by
  induction l' generalizing b l with
  | nil => rwa [List.append_nil]
  | cons d l' ih =>
    rw [List.append_cons]
    exact ih (h.deliver d)

/-! ### What is read -/

/-- **What a reader gets** that has the messages `behind` behind it and `ahead` before it: nothing
if there is none, the first of them if that is kept, and otherwise the number of those that it
missed; all that are kept are before it then. -/
theorem Keeps.read_cases {behind ahead : List Delivery} (h : b.Keeps (behind ++ ahead)) :
    (ahead = [] ∧ b.read ⟨behind.length⟩ =
      (if b.isClosed then .failed .closed else .nothing, ⟨behind.length⟩)) ∨
    (∃ d rest, ahead = d :: rest ∧ b.read ⟨behind.length⟩ = (.message d, ⟨behind.length + 1⟩)) ∨
    ∃ missed, missed ≠ [] ∧ ahead = missed ++ b.kept ∧ b.kept.length = b.capacity ∧
      b.read ⟨behind.length⟩ =
        (.failed (.lagged missed.length), ⟨behind.length + missed.length⟩) := by
  have hgone := h.gone
  have hkept := h.kept
  rw [List.length_append] at hgone hkept
  rcases Nat.lt_or_ge behind.length b.gone with hlag | hnear
  · right; right
    -- the messages missed are those between the reader and the oldest one kept
    have hrest : b.kept = ahead.drop (b.gone - behind.length) := by
      rw [hkept, ← hgone, List.drop_append, List.drop_eq_nil_of_le (by omega), List.nil_append]
    have hlength : (ahead.take (b.gone - behind.length)).length = b.gone - behind.length := by
      rw [List.length_take]
      omega
    refine ⟨ahead.take (b.gone - behind.length), ?_, ?_, ?_, ?_⟩
    · intro hnone
      rw [hnone, List.length_nil] at hlength
      omega
    · rw [hrest, List.take_append_drop]
    · rw [hrest, List.length_drop]
      omega
    · unfold Broker.read
      rw [if_pos hlag, hlength]
      simp only [Prod.mk.injEq, Reader.mk.injEq, true_and]
      omega
  · have hfirst : b.kept[behind.length - b.gone]? = ahead.head? := by
      rw [hkept, ← hgone, List.getElem?_drop, Nat.add_sub_cancel' hnear,
        List.getElem?_append_right (Nat.le_refl _), Nat.sub_self, List.head?_eq_getElem?]
    unfold Broker.read
    rw [if_neg (Nat.not_lt.2 hnear), hfirst]
    cases ahead with
    | nil => exact .inl ⟨rfl, rfl⟩
    | cons d rest => exact .inr (.inl ⟨d, rest, rfl, rfl⟩)

end Takeaway.Broker
