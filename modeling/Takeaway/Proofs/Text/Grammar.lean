import Takeaway.Proofs.Text.Blank
import Takeaway.Proofs.Text.Numeral

/-!
Numerals as a grammar: which texts denote which number, told by the places of their digits and not
by a reader. Main statements: a natural number, a whole number, and each of them within a number of
binary digits is read from a text exactly if the text denotes it.
-/

namespace Takeaway.Text

variable {s : List Char} {n k : Nat}

/-! ### What numerals denote -/

/-- The number that digits denote in which each digit counts ten times as much as the one behind
it. -/
def placeValue (s : List Char) : Nat := Nat.ofDigits 10 (s.reverse.map fun c => c.toNat - '0'.toNat)

/-- A row of at least one ASCII digit, and the number that it denotes. -/
structure Row (s : List Char) (n : Nat) : Prop where
  nonempty : s ≠ []
  digits : ∀ c ∈ s, c.isDigit = true
  value : n = placeValue s

/-- A natural number with or without a plus sign. -/
inductive DenotesNat : List Char → Nat → Prop
  | plain {s : List Char} {n : Nat} (h : Row s n) : DenotesNat s n
  | plus {s : List Char} {n : Nat} (h : Row s n) : DenotesNat ('+' :: s) n

/-- A whole number with or without a sign. -/
inductive DenotesInt : List Char → Int → Prop
  | nat {s : List Char} {n : Nat} (h : DenotesNat s n) : DenotesInt s n
  | minus {s : List Char} {n : Nat} (h : Row s n) : DenotesInt ('-' :: s) (-n)

theorem placeValue_cons (c : Char) (s : List Char) :
    placeValue (c :: s) = (c.toNat - 48) * 10 ^ s.length + placeValue s := by
  unfold placeValue
  rw [List.reverse_cons, List.map_append, Nat.ofDigits_append, List.length_map,
    List.length_reverse, List.map_singleton, Nat.ofDigits_singleton, Nat.mul_comm, Nat.add_comm]
  rfl

/-! ### Rows of digits -/

theorem isDigit_of_digit? {c : Char} {d : Nat} (h : digit? c = some d) :
    c.isDigit = true ∧ d = c.toNat - 48 := by
  unfold digit? at h
  split at h
  · next hc =>
    refine ⟨?_, (Option.some.inj h).symm⟩
    simpa [Char.isDigit, Char.le_def] using hc
  · cases h

/-- Further digits move those before them up by their number. -/
theorem digitsFrom?_eq_some_iff (m : Nat) : digitsFrom? m s = some n ↔
    (∀ c ∈ s, c.isDigit = true) ∧ n = m * 10 ^ s.length + placeValue s := by
  induction s generalizing m with
  | nil =>
    have hzero : placeValue [] = 0 := rfl
    rw [digitsFrom?, List.length_nil, Nat.pow_zero, Nat.mul_one, hzero, Nat.add_zero]
    exact ⟨fun h => ⟨fun _ hc => absurd hc List.not_mem_nil, (Option.some.inj h).symm⟩,
      fun h => congrArg some h.2.symm⟩
  | cons c s ih =>
    have hplaces : (10 * m + (c.toNat - 48)) * 10 ^ s.length + placeValue s =
        m * 10 ^ (c :: s).length + placeValue (c :: s) := by
      rw [placeValue_cons, List.length_cons, Nat.pow_succ]
      ring
    rw [digitsFrom?, List.forall_mem_cons, ← hplaces, and_assoc, ← ih]
    constructor
    · intro h
      obtain ⟨d, hd, hrest⟩ := Option.bind_eq_some_iff.1 h
      obtain ⟨hc, rfl⟩ := isDigit_of_digit? hd
      exact ⟨hc, hrest⟩
    · rintro ⟨hc, hrest⟩
      rw [(digit?_of_isDigit hc).1]
      exact hrest

theorem digits?_eq_some_iff : digits? s = some n ↔ Row s n := by
  have hread : digitsFrom? 0 s = some n ↔ (∀ c ∈ s, c.isDigit = true) ∧ n = placeValue s := by
    rw [digitsFrom?_eq_some_iff, Nat.zero_mul, Nat.zero_add]
  unfold digits?
  split
  · exact ⟨nofun, fun h => absurd rfl h.nonempty⟩
  · next hne =>
    rw [hread]
    exact ⟨fun h => ⟨hne, h.1, h.2⟩, fun h => ⟨h.digits, h.value⟩⟩

/-- What begins with a sign is no row of digits. -/
theorem Row.not_sign {c : Char} (hc : c.isDigit = false) : ¬ Row (c :: s) n := fun h => by
  have := h.digits c (List.mem_cons_self ..)
  rw [hc] at this
  cases this

/-! ### Numbers with signs -/

theorem nat?_eq_some_iff : nat? s = some n ↔ DenotesNat s n := by
  unfold nat?
  split
  · next r =>
    rw [digits?_eq_some_iff]
    refine ⟨.plus, fun h => ?_⟩
    cases h with
    | plain h => exact absurd h (Row.not_sign (by decide))
    | plus h => exact h
  · next hplus =>
    rw [digits?_eq_some_iff]
    refine ⟨.plain, fun h => ?_⟩
    cases h with
    | plain h => exact h
    | plus h => exact absurd rfl (hplus _)

theorem int?_eq_some_iff {z : Int} : int? s = some z ↔ DenotesInt s z := by
  unfold int?
  split
  · next r =>
    rw [Option.map_eq_some_iff]
    constructor
    · rintro ⟨n, hn, rfl⟩
      exact .nat (.plus (digits?_eq_some_iff.1 hn))
    · intro h
      cases h with
      | nat h => exact ⟨_, (nat?_eq_some_iff (s := '+' :: r)).2 h, rfl⟩
  · next r =>
    rw [Option.map_eq_some_iff]
    constructor
    · rintro ⟨z, hz, rfl⟩
      obtain ⟨n, hn, heq⟩ := Option.bind_eq_some_iff.1 hz
      cases heq
      exact .minus (digits?_eq_some_iff.1 hn)
    · intro h
      cases h with
      | nat h =>
        cases h with
        | plain h => exact absurd h (Row.not_sign (by decide))
      | minus h =>
        exact ⟨_, Option.bind_eq_some_iff.2 ⟨_, digits?_eq_some_iff.2 h, rfl⟩, rfl⟩
  · next hplus hminus =>
    rw [Option.map_eq_some_iff]
    constructor
    · rintro ⟨n, hn, rfl⟩
      exact .nat (.plain (digits?_eq_some_iff.1 hn))
    · intro h
      cases h with
      | nat h =>
        cases h with
        | plain h => exact ⟨_, digits?_eq_some_iff.2 h, rfl⟩
        | plus h => exact absurd rfl (hplus _)
      | minus h => exact absurd rfl (hminus _)

/-! ### Numbers that fit -/

theorem fitsSigned_iff (bits : Nat) (z : Int) :
    fitsSigned bits z = true ↔ -(2 ^ (bits - 1) : Int) ≤ z ∧ z < 2 ^ (bits - 1) := by
  have hpow : ((Nat.pow 2 (bits - 1) : Nat) : Int) = 2 ^ (bits - 1) := by
    show ((2 ^ (bits - 1) : Nat) : Int) = _
    push_cast
    rfl
  unfold fitsSigned
  rw [Bool.and_eq_true, decide_eq_true_eq, decide_eq_true_eq, hpow]

theorem natWithin?_eq_some_iff (bits : Nat) :
    natWithin? bits s = some n ↔ DenotesNat s n ∧ n < 2 ^ bits := by
  unfold natWithin?
  rw [Option.filter_eq_some_iff, nat?_eq_some_iff, decide_eq_true_eq]
  rfl

theorem intWithin?_eq_some_iff (bits : Nat) {z : Int} :
    intWithin? bits s = some z ↔ DenotesInt s z ∧ fitsSigned bits z = true := by
  unfold intWithin?
  rw [Option.filter_eq_some_iff, int?_eq_some_iff]

/-! ### Numerals among blanks -/

theorem Row.not_blank (h : Row s n) : ∀ c ∈ s, isBlank c = false := fun c hc =>
  isBlank_of_isDigit (h.digits c hc)

/-- No numeral begins or ends with a blank, so trimming leaves it as it is. -/
theorem DenotesInt.trimmed {z : Int} (h : DenotesInt s z) : Trimmed s := by
  have hsign : ∀ {c : Char} {r : List Char} {k : Nat}, isBlank c = false → Row r k →
      ∀ d ∈ c :: r, isBlank d = false := by
    intro c r k hc hr d hd
    rcases List.mem_cons.1 hd with rfl | hd
    · exact hc
    · exact hr.not_blank d hd
  refine trimmed_of_not_blank ?_
  cases h with
  | nat h =>
    cases h with
    | plain h => exact h.not_blank
    | plus h => exact hsign (by decide) h
  | minus h => exact hsign (by decide) h

end Takeaway.Text
