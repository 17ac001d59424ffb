import Takeaway.Order.Number
import Mathlib.Data.Nat.Digits.Lemmas

/-!
Reading back numbers that were written in decimal. Main statements: a whole number is read as
itself, and so is an order number that fits.
-/

namespace Takeaway

namespace Text

/-! ### Digits -/

theorem digit?_of_isDigit {c : Char} (h : c.isDigit = true) :
    digit? c = some (c.toNat - 48) ∧ c.toNat - 48 < 10 := by
  have hc : '0' ≤ c ∧ c ≤ '9' := by
    simpa [Char.isDigit, Char.le_def] using h
  have hle : c.toNat ≤ 57 := by
    have := hc.2
    rw [Char.le_def, UInt32.le_iff_toNat_le] at this
    exact this
  exact ⟨if_pos hc, by omega⟩

theorem digitsFrom?_eq {s : List Char} (h : ∀ c ∈ s, c.isDigit = true) (n : Nat) :
    digitsFrom? n s = some (Nat.ofDigitChars 10 s n) := by
  induction s generalizing n with
  | nil => rfl
  | cons c s ih =>
    obtain ⟨hc, hs⟩ := List.forall_mem_cons.1 h
    rw [digitsFrom?, (digit?_of_isDigit hc).1, Option.bind_some, ih hs, Nat.ofDigitChars_cons]
    rfl

theorem isDigit_of_mem_ofNat {n : Nat} {c : Char} (h : c ∈ ofNat n) : c.isDigit = true :=
  Nat.isDigit_of_mem_toDigits (by decide) (by decide) h

theorem ofNat_ne_nil (n : Nat) : ofNat n ≠ [] := Nat.toDigits_ne_nil

theorem digits?_ofNat (n : Nat) : digits? (ofNat n) = some n := by
  have hread : digitsFrom? 0 (ofNat n) = some n := by
    rw [digitsFrom?_eq fun c hc => isDigit_of_mem_ofNat hc]
    exact congrArg some Nat.ofDigitChars_ten_toDigits
  have hne := ofNat_ne_nil n
  unfold digits?
  split
  · next h => exact absurd h hne
  · exact hread

/-- A number begins with a digit, which is zero only if it is all there is. -/
theorem ofNat_cons (n : Nat) : ∃ c r, ofNat n = c :: r ∧ c.isDigit = true ∧
    (n = 0 ∧ c = '0' ∧ r = [] ∨ 0 < n ∧ c ≠ '0') := by
  unfold ofNat
  induction n using Nat.strongRecOn with
  | ind n ih =>
    rw [Nat.toDigits_eq_if (by decide)]
    split
    · next hlt =>
      refine ⟨n.digitChar, [], rfl, ?_, ?_⟩
      · exact isDigit_of_mem_ofNat (n := n) (by simp [ofNat, Nat.toDigits_of_lt_base hlt])
      · rcases Nat.eq_zero_or_pos n with rfl | hpos
        · exact .inl ⟨rfl, rfl, rfl⟩
        · exact .inr ⟨hpos, by rw [Ne, Nat.digitChar_eq_zero]; omega⟩
    · next hge =>
      obtain ⟨c, r, heq, hdigit, hzero⟩ := ih (n / 10) (by omega)
      refine ⟨c, r ++ [(n % 10).digitChar], by rw [heq]; rfl, hdigit, .inr ⟨by omega, ?_⟩⟩
      rcases hzero with ⟨h0, -, -⟩ | ⟨-, hc⟩
      · omega
      · exact hc

/-! ### Whole numbers -/

theorem isDigit_ne {c d : Char} (h : c.isDigit = true) (hd : d.isDigit = false) : c ≠ d := by
  rintro rfl
  rw [h] at hd
  cases hd

/-- A whole number is read as itself. -/
theorem int?_ofInt (n : Int) : int? (ofInt n) = some n := by
  cases n with
  | ofNat n =>
    obtain ⟨c, r, heq, hdigit, -⟩ := ofNat_cons n
    have hread := digits?_ofNat n
    have hplus := isDigit_ne hdigit (d := '+') (by decide)
    have hminus := isDigit_ne hdigit (d := '-') (by decide)
    unfold ofInt int?
    dsimp only
    rw [heq] at hread ⊢
    split
    · next h => exact absurd (List.cons.inj h).1 hplus
    · next h => exact absurd (List.cons.inj h).1 hminus
    · rw [hread]
      rfl
  | negSucc n =>
    simp only [ofInt, int?, digits?_ofNat]
    rfl

/-! ### Blanks -/

theorem isBlank_of_isDigit {c : Char} (h : c.isDigit = true) : isBlank c = false := by
  have hlow : 48 ≤ c.toNat ∧ c.toNat ≤ 57 := by
    have : '0' ≤ c ∧ c ≤ '9' := by simpa [Char.isDigit, Char.le_def] using h
    rw [Char.le_def, Char.le_def, UInt32.le_iff_toNat_le, UInt32.le_iff_toNat_le] at this
    exact this
  unfold isBlank
  generalize c.toNat = n at hlow
  simp only [Bool.or_eq_false_iff, Bool.and_eq_false_iff, decide_eq_false_iff_not,
    beq_eq_false_iff_ne, ne_eq]
  omega

theorem isBlank_of_mem_ofInt {n : Int} {c : Char} (h : c ∈ ofInt n) : isBlank c = false := by
  cases n with
  | ofNat n => exact isBlank_of_isDigit (isDigit_of_mem_ofNat h)
  | negSucc n =>
    rcases List.mem_cons.1 h with rfl | h
    · decide
    · exact isBlank_of_isDigit (isDigit_of_mem_ofNat h)

/-- Where there are no blanks none are left out. -/
theorem trim_of_not_blank {s : List Char} (h : ∀ c ∈ s, isBlank c = false) : trim s = s := by
  have hdrop : ∀ t : List Char, (∀ c ∈ t, isBlank c = false) → t.dropWhile isBlank = t := by
    intro t ht
    cases t with
    | nil => rfl
    | cons c t => exact List.dropWhile_cons_of_neg (by simp [ht c (List.mem_cons_self ..)])
  unfold trim trimStart trimEnd
  rw [hdrop s h, hdrop s.reverse fun c hc => h c (List.mem_reverse.1 hc), List.reverse_reverse]

end Text

/-- **An order number that fits is read as itself.** -/
theorem OrderNumber.read_text {n : OrderNumber} (h : n.Fits) : read n.text = .ok n := by
  have hchars : n.text.toList = Text.ofInt n.value := String.toList_ofList
  have hfits : Text.fitsSigned 64 n.value = true := h
  unfold read Text.intWithin?
  rw [hchars, Text.trim_of_not_blank fun c hc => Text.isBlank_of_mem_ofInt hc, Text.int?_ofInt,
    Option.filter_some, if_pos hfits]

theorem OrderNumber.text_inj {n n' : OrderNumber} (h : n.text = n'.text) : n = n' := by
  have hchars : Text.ofInt n.value = Text.ofInt n'.value := by
    rw [← String.toList_ofList (l := Text.ofInt n.value)]
    exact (congrArg String.toList h).trans String.toList_ofList
  have hvalue := Text.int?_ofInt n.value
  rw [hchars, Text.int?_ofInt] at hvalue
  cases n
  cases n'
  exact congrArg OrderNumber.mk (Option.some.inj hvalue).symm

end Takeaway
