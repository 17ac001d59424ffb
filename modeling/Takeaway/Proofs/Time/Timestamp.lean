import Takeaway.Proofs.Text.Numeral
import Takeaway.Time.Timestamp

/-!
Points in time are read back as they were written. Main statement: the text of every point in time
is read as that point, in the years that four digits show and in the others, and also within a leap
second.
-/

namespace Takeaway

open Takeaway.Text

/-! ### Numbers with zeros in front -/

namespace Text

theorem digitsFrom?_zeros (k : Nat) (s : List Char) :
    digitsFrom? 0 (List.replicate k '0' ++ s) = digitsFrom? 0 s := by
  induction k with
  | zero => rfl
  | succ k ih => exact ih

theorem digits?_of_ne_nil {s : List Char} (h : s ≠ []) : digits? s = digitsFrom? 0 s := by
  cases s with
  | nil => exact absurd rfl h
  | cons c r => rfl

theorem padded_ne_nil (width n : Nat) : padded width n ≠ [] := fun h =>
  ofNat_ne_nil n (List.append_eq_nil_iff.1 h).2

theorem digits?_padded (width n : Nat) : digits? (padded width n) = some n := by
  rw [digits?_of_ne_nil (padded_ne_nil width n)]
  unfold padded
  rw [digitsFrom?_zeros, ← digits?_of_ne_nil (ofNat_ne_nil n), digits?_ofNat]

theorem isDigit_of_mem_padded {width n : Nat} {c : Char} (h : c ∈ padded width n) :
    c.isDigit = true := by
  rcases List.mem_append.1 h with h | h
  · rw [List.eq_of_mem_replicate h]
    rfl
  · exact isDigit_of_mem_ofNat h

theorem padded_cons (width n : Nat) : ∃ c ds, padded width n = c :: ds ∧ c.isDigit = true := by
  obtain ⟨c, ds, h⟩ := List.exists_cons_of_ne_nil (padded_ne_nil width n)
  have hc : c ∈ padded width n := by
    rw [h]
    exact List.mem_cons_self ..
  exact ⟨c, ds, h, isDigit_of_mem_padded hc⟩

theorem length_padded {width n : Nat} (hwidth : 0 < width) (h : n < 10 ^ width) :
    (padded width n).length = width := by
  have hlen : (ofNat n).length ≤ width := (Nat.length_toDigits_le_iff (by decide) hwidth).2 h
  unfold padded
  rw [List.length_append, List.length_replicate]
  omega

theorem trimStart_cons {c : Char} (h : isBlank c = false) (r : List Char) :
    trimStart (c :: r) = c :: r := List.dropWhile_cons_of_neg (by simp [h])

end Text

namespace Timestamp

variable {α β : Type} {r s t : List Char}

/-! ### Reading from the front -/

/-- A reading takes `a` from the front of `s` and leaves `r`. -/
def Reads (x : Reading α) (s : List Char) (a : α) (r : List Char) : Prop := x.run s = some (a, r)

theorem Reads.bind {x : Reading α} {f : α → Reading β} {a : α} {b : β} (hx : Reads x s a r)
    (hf : Reads (f a) r b t) : Reads (x >>= f) s b t := by
  unfold Reads
  rw [StateT.run_bind, hx]
  exact hf

theorem reads_lift {x : Option α} {a : α} (h : x = some a) : Reads (liftM x) s a s := by
  subst h
  rfl

/-- What follows does not begin with a digit. -/
def Past (r : List Char) : Prop := ∀ c t, r = c :: t → digit? c = none

theorem past_cons {c : Char} (h : digit? c = none) (r : List Char) : Past (c :: r) := by
  rintro d t ⟨⟩
  exact h

theorem reads_blanks {c : Char} (h : isBlank c = false) (r : List Char) :
    Reads blanks (c :: r) () (c :: r) := congrArg (fun s => some ((), s)) (trimStart_cons h r)

theorem reads_digitRun {most : Nat} {ds : List Char} (hds : ∀ c ∈ ds, c.isDigit = true)
    (hlen : ds.length ≤ most) (hr : Past r) : Reads (digitRun most) (ds ++ r) ds r := by
  have hrun : ((ds ++ r).take most).takeWhile (fun c => (digit? c).isSome) = ds := by
    rw [List.take_append, List.take_of_length_le hlen, List.takeWhile_append_of_pos fun c hc => by
      rw [(digit?_of_isDigit (hds c hc)).1]
      rfl]
    suffices h : (r.take (most - ds.length)).takeWhile (fun c => (digit? c).isSome) = [] by
      rw [h, List.append_nil]
    cases r with
    | nil => simp
    | cons c t =>
      cases most - ds.length with
      | zero => rfl
      | succ k => exact List.takeWhile_cons_of_neg (by simp [hr c t rfl])
  show some (_, (ds ++ r).drop (List.takeWhile _ _).length) = some (ds, r)
  rw [hrun, List.drop_left]

theorem reads_number (most width n : Nat) (hwidth : (padded width n).length ≤ most)
    (hr : Past r) : Reads (number most) (padded width n ++ r) n r :=
  (reads_digitRun (fun _ => isDigit_of_mem_padded) hwidth hr).bind
    (reads_lift (digits?_padded width n))

theorem reads_shortNumber {n : Nat} (hn : n < 100) (hr : Past r) :
    Reads shortNumber (padded 2 n ++ r) n r := by
  have hnumber := reads_number 2 2 n (length_padded two_pos hn).le hr
  obtain ⟨c, ds, heq, hdigit⟩ := padded_cons 2 n
  rw [heq, List.cons_append] at hnumber ⊢
  exact (reads_blanks (isBlank_of_isDigit hdigit) _).bind hnumber

theorem reads_blanksAndMark {c : Char} (h : isBlank c = false) (r : List Char) :
    Reads (blanksAndMark c) (c :: r) () r := by
  refine (reads_blanks h r).bind ?_
  show (if c = c then _ else _ : Reading Unit).run (c :: r) = _
  rw [if_pos rfl]
  rfl

/-! ### The parts of a point in time -/

theorem reads_yearNumber (year : Int) (hr : Past r) :
    Reads yearNumber (yearChars year ++ r) year r := by
  unfold yearChars
  split
  · next hyear =>
    have hlt : year.toNat < 10 ^ 4 := by omega
    have hnumber := reads_number 4 4 _ (length_padded (by decide) hlt).le hr
    have hvalue : ((year.toNat : Nat) : Int) = year := Int.toNat_of_nonneg hyear.1
    obtain ⟨c, ds, heq, hdigit⟩ := padded_cons 4 year.toNat
    rw [heq, List.cons_append] at hnumber ⊢
    refine ((reads_blanks (isBlank_of_isDigit hdigit) _).bind <|
      Reads.bind (x := get) (a := c :: (ds ++ r)) rfl ?_)
    split
    · next h => exact absurd (List.cons.inj h).1 (isDigit_ne hdigit (by decide))
    · next h => exact absurd (List.cons.inj h).1 (isDigit_ne hdigit (by decide))
    · rw [← hvalue]
      exact hnumber.bind rfl
  · next hyear =>
    have hnumber := reads_number (padded 4 year.natAbs ++ r).length 4 year.natAbs (by simp) hr
    by_cases hneg : year < 0
    · have hvalue : -((year.natAbs : Nat) : Int) = year := by omega
      rw [if_pos hneg, List.cons_append, ← hvalue, Int.natAbs_neg, Int.natAbs_natCast]
      refine (reads_blanks (by decide) _).bind (Reads.bind (x := get) (a := '-' :: _) rfl ?_)
      exact Reads.bind (x := set (padded 4 year.natAbs ++ r)) (a := ⟨⟩) rfl (hnumber.bind rfl)
    · have hvalue : ((year.natAbs : Nat) : Int) = year := by omega
      rw [if_neg hneg, List.cons_append, ← hvalue, Int.natAbs_natCast]
      refine (reads_blanks (by decide) _).bind (Reads.bind (x := get) (a := '+' :: _) rfl ?_)
      exact Reads.bind (x := set (padded 4 year.natAbs ++ r)) (a := ⟨⟩) rfl (hnumber.bind rfl)

/-- The digits of a fraction, as many of them as nanoseconds have or fewer. -/
theorem reads_fraction_digits (width n : Nat) (hpos : 0 < width) (hwidth : width ≤ 9)
    (hn : n < 10 ^ width) (hr : Past r) :
    Reads fraction ('.' :: padded width n ++ r) (n * 10 ^ (9 - width)) r := by
  have hlen := length_padded hpos hn
  refine Reads.bind (x := get) (a := '.' :: (padded width n ++ r)) rfl ?_
  refine Reads.bind (x := set (padded width n ++ r)) (a := ⟨⟩) rfl ?_
  refine (reads_digitRun (fun _ => isDigit_of_mem_padded) (by omega) hr).bind ?_
  refine (reads_lift (digits?_padded width n)).bind ?_
  have hdrop : r.dropWhile (fun c => (digit? c).isSome) = r := by
    cases r with
    | nil => rfl
    | cons c t => exact List.dropWhile_cons_of_neg (by simp [hr c t rfl])
  show some (n * 10 ^ (9 - (padded width n).length), r.dropWhile _) = _
  rw [hlen, hdrop]

theorem reads_fraction {nanos : Nat} (h : nanos < 1000000000) (r : List Char) :
    Reads fraction (fractionChars nanos ++ 'Z' :: r) nanos ('Z' :: r) := by
  have hz : Past ('Z' :: r) := past_cons (by decide) r
  unfold fractionChars
  split
  · next h0 =>
    subst h0
    rfl
  split
  · next h6 =>
    have hread := reads_fraction_digits 3 (nanos / 1000000) (by decide) (by decide)
      (by omega) hz
    rwa [show nanos / 1000000 * 10 ^ (9 - 3) = nanos by omega] at hread
  split
  · next h3 =>
    have hread := reads_fraction_digits 6 (nanos / 1000) (by decide) (by decide)
      (by omega) hz
    rwa [show nanos / 1000 * 10 ^ (9 - 6) = nanos by omega] at hread
  · have hread := reads_fraction_digits 9 nanos (by decide) (by decide)
      (by omega) hz
    rwa [show nanos * 10 ^ (9 - 9) = nanos by omega] at hread

theorem reads_offset : Reads offset ['Z'] 0 [] :=
  (reads_blanks (by decide) []).bind rfl

/-! ### Universal time -/

/-- In universal time itself the clock stays as it is. -/
theorem atOffset_zero {t : Timestamp} (hhour : t.hour < 24) (hminute : t.minute < 60) :
    t.atOffset 0 = t := by
  have hminutes : ((t.hour * 60 + t.minute : Nat) : Int) - 0 = (t.hour * 60 + t.minute : Nat) := by
    omega
  unfold atOffset
  rw [hminutes]
  have h₁ : ¬ ((t.hour * 60 + t.minute : Nat) : Int) < 0 := by omega
  have h₂ : ¬ (1440 : Int) ≤ (t.hour * 60 + t.minute : Nat) := by omega
  simp only [if_neg h₁, if_neg h₂, Int.toNat_natCast]
  have hh : (t.hour * 60 + t.minute) / 60 = t.hour := by omega
  have hm : (t.hour * 60 + t.minute) % 60 = t.minute := by omega
  rw [hh, hm]

theorem isValid_iff {t : Timestamp} : t.isValid = true ↔
    isYear t.year = true ∧ (1 ≤ t.month ∧ t.month ≤ 12) ∧
      (1 ≤ t.day ∧ t.day ≤ monthLength t.year t.month) ∧ t.hour < 24 ∧ t.minute < 60 ∧
      t.second < 60 ∧ t.nanos < (if t.second = 59 then 2000000000 else 1000000000) := by
  simp only [isValid, Bool.and_eq_true, decide_eq_true_eq, and_assoc]

theorem past_fraction (nanos : Nat) (r : List Char) : Past (fractionChars nanos ++ 'Z' :: r) := by
  unfold fractionChars
  split
  · exact past_cons (by decide) r
  split
  · exact past_cons (by decide) _
  split
  · exact past_cons (by decide) _
  · exact past_cons (by decide) _

/-- The second and the nanoseconds that are written for a point in time give it back. -/
theorem second_of_written {t : Timestamp} (hsecond : t.second < 60)
    (hnanos : t.nanos < if t.second = 59 then 2000000000 else 1000000000) :
    t.second + t.nanos / 1000000000 ≤ 60 ∧
      (if (t.second + t.nanos / 1000000000 == 60) = true then 59
        else t.second + t.nanos / 1000000000) = t.second ∧
      (if (t.second + t.nanos / 1000000000 == 60) = true then t.nanos % 1000000000 + 1000000000
        else t.nanos % 1000000000) = t.nanos := by
  simp only [beq_iff_eq]
  split at hnanos <;> split <;> omega

theorem reads_localTime {t : Timestamp} (h : t.isValid = true) :
    Reads localTime t.chars (t, 0) [] := by
  obtain ⟨-, ⟨-, hmonth⟩, ⟨-, hday⟩, hhour, hminute, hsecond, hnanos⟩ := isValid_iff.1 h
  have hday : t.day < 100 := by
    have : monthLength t.year t.month ≤ 31 := by
      unfold monthLength
      split_ifs <;> decide
    omega
  obtain ⟨hsixty, hback, hrest⟩ := second_of_written hsecond hnanos
  have hsplit : t.chars = yearChars t.year ++ '-' :: (padded 2 t.month ++ '-' ::
      (padded 2 t.day ++ 'T' :: (padded 2 t.hour ++ ':' :: (padded 2 t.minute ++ ':' ::
        (padded 2 (t.second + t.nanos / 1000000000) ++
          (fractionChars (t.nanos % 1000000000) ++ ['Z'])))))) := by simp [chars]
  have hdash : ∀ r, Past ('-' :: r) := past_cons (by decide)
  have hcolon : ∀ r, Past (':' :: r) := past_cons (by decide)
  rw [hsplit]
  unfold localTime
  refine (reads_yearNumber t.year (hdash _)).bind ((reads_blanksAndMark (by decide) _).bind ?_)
  refine (reads_shortNumber (by omega) (hdash _)).bind ((reads_blanksAndMark (by decide) _).bind ?_)
  refine (reads_shortNumber hday (past_cons (by decide) _)).bind ?_
  refine Reads.bind (x := get) (a := 'T' :: _) rfl (Reads.bind (x := set _) (a := ⟨⟩) rfl ?_)
  refine (reads_shortNumber (by omega) (hcolon _)).bind ?_
  refine (reads_blanksAndMark (by decide) _).bind ?_
  refine (reads_shortNumber (by omega) (hcolon _)).bind ?_
  refine (reads_blanksAndMark (by decide) _).bind ?_
  refine (reads_shortNumber (by omega) (past_fraction _ _)).bind ?_
  refine (reads_fraction (Nat.mod_lt _ (by decide)) []).bind (reads_offset.bind ?_)
  refine Reads.bind (x := blanks) (a := ⟨⟩) (r := []) rfl ?_
  show some ((Timestamp.mk _ _ _ _ _ _ _, _), _) = _
  rw [hback, hrest]

/-- **Every point in time is read back as it was written.** -/
theorem read?_text {t : Timestamp} (h : t.isValid = true) : read? t.text = some t := by
  have hread := reads_localTime h
  obtain ⟨hyear, -, -, hhour, hminute, -⟩ := isValid_iff.1 h
  unfold Reads at hread
  unfold read? text
  rw [String.toList_ofList, hread]
  show (if (true && (t.isValid && isYear (t.atOffset 0).year)) then some (t.atOffset 0) else none)
    = _
  rw [atOffset_zero hhour hminute, h, hyear]
  rfl

end Timestamp

end Takeaway
