import Takeaway.Message.Intake
import Takeaway.Proofs.Message.Broker

/-!
How far reading goes. Main statement: when an intake reads all that it can, it stops only because
everything was read, or because a message is held and the inbox has no room.
-/

namespace Takeaway.Intake

variable {b : Broker} {i : Intake}

/-- After so many steps reading cannot go on: each message that is kept takes two steps, one to
read it and one to put it into the inbox. -/
def stepsLeft (b : Broker) (i : Intake) : Nat :=
  i.held.toList.length +
    if i.reader.position < b.gone then 1 + 2 * b.kept.length
    else 2 * (b.total - i.reader.position)

/-- A step leaves the inbox within its size. -/
theorem inbox_step (m : Metrics) (h : i.inbox.length ≤ max i.size 1) :
    (step b i m).1.inbox.length ≤ max (step b i m).1.size 1 := by
  unfold step
  cases i.held with
  | none =>
    simp only [readOnce]
    split <;> exact h
  | some e =>
    dsimp only
    split
    · exact h
    · next hroom =>
      have hless : ¬max i.size 1 ≤ i.inbox.length := fun hfull => hroom (decide_eq_true hfull)
      rw [List.length_append, List.length_singleton]
      exact Nat.lt_of_not_le hless

/-- Each step brings the end nearer. -/
theorem stepsLeft_step (hb : b.kept.length ≤ b.total) (m : Metrics) (hread : i.canRead b = true) :
    stepsLeft b (step b i m).1 < stepsLeft b i := by
  have hgone : b.gone = b.total - b.kept.length := rfl
  unfold canRead at hread
  unfold stepsLeft step
  cases hheld : i.held with
  | some e =>
    simp only [hheld, Bool.not_eq_true'] at hread
    simp only [hread, Bool.false_eq_true, if_false, Option.toList_none, Option.toList_some,
      List.length_nil, List.length_singleton]
    omega
  | none =>
    simp only [hheld, decide_eq_true_eq] at hread
    dsimp only
    by_cases hlag : i.reader.position < b.gone
    · -- the reader learns of what it missed, and the oldest message kept is next
      have hskip : b.read i.reader = (.failed (.lagged (b.gone - i.reader.position)), ⟨b.gone⟩) :=
        if_pos hlag
      simp only [readOnce, hskip, Subscription.react, hheld, if_pos hlag, Nat.lt_irrefl, if_false]
      omega
    · have hsome : i.reader.position - b.gone < b.kept.length := by omega
      have hnext : b.read i.reader =
          (.message b.kept[i.reader.position - b.gone], ⟨i.reader.position + 1⟩) := by
        unfold Broker.read
        rw [if_neg hlag, List.getElem?_eq_getElem hsome]
      have hnear : ¬i.reader.position + 1 < b.gone := by omega
      rw [if_neg hlag, Option.toList_none, List.length_nil]
      simp only [readOnce, hnext, Subscription.react]
      split <;> simp only [hheld, if_neg hnear, Option.toList_some, Option.toList_none,
        List.length_singleton, List.length_nil] <;> omega

theorem canRead_of_stepsLeft (hleft : stepsLeft b i = 0) : i.canRead b = false := by
  unfold stepsLeft at hleft
  unfold canRead
  cases hheld : i.held with
  | some e =>
    rw [hheld, Option.toList_some, List.length_singleton] at hleft
    omega
  | none =>
    split at hleft
    · omega
    · exact decide_eq_false (by omega)

theorem canRead_read (hb : b.kept.length ≤ b.total) (n : Nat) (i : Intake) (m : Metrics)
    (hn : stepsLeft b i ≤ n) : (read b n i m).1.canRead b = false := by
  induction n generalizing i m with
  | zero => exact canRead_of_stepsLeft (Nat.le_zero.1 hn)
  | succ n ih =>
    unfold read
    split
    · next hread =>
      have hless := stepsLeft_step hb m hread
      exact ih (step b i m).1 (step b i m).2 (by omega)
    · next hread => exact Bool.eq_false_iff.2 hread

/-- **Reading all** goes on until reading cannot go on. -/
theorem canRead_readAll (hb : b.kept.length ≤ b.total) (i : Intake) (m : Metrics) :
    (readAll b i m).1.canRead b = false := by
  refine canRead_read hb _ i m ?_
  have hgone : b.gone = b.total - b.kept.length := rfl
  have hheld : i.held.toList.length ≤ 1 := by cases i.held <;> simp
  unfold stepsLeft
  split <;> omega

end Takeaway.Intake
