import Takeaway.Json.Token
import Takeaway.Json.Value
import Takeaway.Proofs.Text.Numeral
import Mathlib.Tactic.IntervalCases

/-!
The tokens of JSON text that was written. Main statement: scanning a written value gives exactly
its tokens, whatever follows it, as long as that does not go on with a number.
-/

namespace Takeaway.Json

open Takeaway.Text

/-! ### The tokens of a value -/

mutual

/-- The tokens that a value is written with. -/
def tokensOf : Json → List Token
  | .null => [.null]
  | .bool b => [.bool b]
  | .int n => [.number (.whole n)]
  | .text s => [.text (some s)]
  | .list xs => .listOpen :: itemTokens xs ++ [.listClose]
  | .record fs => .recordOpen :: fieldTokens fs ++ [.recordClose]

/-- The tokens of the items of a list, with commas between. -/
def itemTokens : List Json → List Token
  | [] => []
  | [x] => tokensOf x
  | x :: y :: r => tokensOf x ++ .comma :: itemTokens (y :: r)

/-- The tokens of the fields of a record, with commas between. -/
def fieldTokens : List (String × Json) → List Token
  | [] => []
  | [(k, x)] => .text (some k) :: .colon :: tokensOf x
  | (k, x) :: f :: r => .text (some k) :: .colon :: tokensOf x ++ .comma :: fieldTokens (f :: r)

end

mutual

/-- Whether the numbers of a value are far from the size at which a double is infinite. -/
def Moderate : Json → Prop
  | .int n => n.natAbs < 10 ^ 100
  | .list xs => AllModerate xs
  | .record fs => AllFieldsModerate fs
  | _ => True

/-- Whether all of the values are moderate. -/
def AllModerate : List Json → Prop
  | [] => True
  | x :: r => Moderate x ∧ AllModerate r

/-- Whether the values of all fields are moderate. -/
def AllFieldsModerate : List (String × Json) → Prop
  | [] => True
  | (_, x) :: r => Moderate x ∧ AllFieldsModerate r

end

namespace Scan

variable {r : List Glyph}

theorem run_cons (s : Scan) (g : Glyph) (r : List Glyph) :
    run s (g :: r) = (s.step g).1 ++ run (s.step g).2 r := rfl

theorem step_number (f : Figure) (g : Glyph) : step (.number f) g = inNumber f g := rfl

theorem step_text (seen : List Piece) (g : Glyph) : step (.text seen) g = inText seen g := rfl

theorem step_code (seen : List Piece) (count value : Nat) (g : Glyph) :
    step (.code seen count value) g = inCode seen count value g := rfl

/-! ### Numbers -/

/-- What follows does not go on with a number. -/
def Stops (r : List Glyph) : Prop :=
  ∀ c t, r = .char c :: t → digit? c = none ∧ c ≠ '.' ∧ c ≠ 'e' ∧ c ≠ 'E'

theorem exists_digit {c : Char} (h : c.isDigit = true) :
    ∃ d, d < 10 ∧ c = Nat.digitChar d ∧ digit? c = some d ∧ c.toNat - 48 = d := by
  obtain ⟨hread, hlt⟩ := digit?_of_isDigit h
  refine ⟨c.toNat - 48, hlt, ?_, hread, rfl⟩
  have hlow : 48 ≤ c.toNat := by
    have : '0' ≤ c ∧ c ≤ '9' := by simpa [Char.isDigit, Char.le_def] using h
    rw [Char.le_def, UInt32.le_iff_toNat_le] at this
    exact this.1
  have hc : Char.ofNat (c.toNat - 48 + 48) = c := by
    rw [Nat.sub_add_cancel hlow, Char.ofNat_toNat]
  generalize c.toNat - 48 = d at hlt hc
  subst hc
  interval_cases d <;> rfl

theorem run_digits {ds : List Char} (h : ∀ c ∈ ds, c.isDigit = true) (b : Bool) (n : Nat) :
    run (.number ⟨.whole, b, n, 0, false, 0⟩) (ds.map .char ++ r) =
      run (.number ⟨.whole, b, Nat.ofDigitChars 10 ds n, 0, false, 0⟩) r := by
  induction ds generalizing n with
  | nil => rfl
  | cons c ds ih =>
    obtain ⟨hc, hds⟩ := List.forall_mem_cons.1 h
    obtain ⟨d, -, -, hread, hd⟩ := exists_digit hc
    have hnext : (⟨.whole, b, n, 0, false, 0⟩ : Figure).next c =
        .more ⟨.whole, b, 10 * n + d, 0, false, 0⟩ := by
      unfold Figure.next
      rw [hread]
      rfl
    have hstep : step (.number ⟨.whole, b, n, 0, false, 0⟩) (.char c) =
        ([], .number ⟨.whole, b, 10 * n + d, 0, false, 0⟩) := by
      rw [step_number]
      unfold inNumber
      dsimp only
      rw [hnext]
    rw [List.map_cons, List.cons_append, run_cons, hstep]
    show run _ _ = _
    rw [ih hds, Nat.ofDigitChars_cons, ← hd]
    rfl

/-- A number that may end is over where what follows does not go on with it. -/
theorem run_over {f : Figure} {n : Numeral} (hphase : f.phase = .zero ∨ f.phase = .whole)
    (hf : f.finish? = some n) (hr : Stops r) :
    run (.number f) r = .number n :: run .ground r := by
  cases r with
  | nil =>
    show [(f.finish?.map Token.number).getD .broken] = _
    rw [hf]
    rfl
  | cons g t =>
    have hover : inNumber f g = (.number n :: (start g).1, (start g).2) := by
      unfold inNumber
      cases g with
      | stray b =>
        dsimp only
        rw [hf]
      | char c =>
        obtain ⟨hdigit, hpoint, he, hE⟩ := hr c t rfl
        have hnext : f.next c = .over := by
          unfold Figure.next
          rw [hdigit]
          rcases hphase with hp | hp <;> rw [hp] <;> simp [hpoint, he, hE]
        dsimp only
        rw [hnext, hf]
    show (inNumber f g).1 ++ run (inNumber f g).2 t = _
    rw [hover]
    rfl

theorem isHuge_of_lt {b : Bool} {n : Nat} (h : n < 10 ^ 100) :
    (⟨.whole, b, n, 0, false, 0⟩ : Figure).isHuge = false := by
  have hlen : (Nat.toDigits 10 n).length ≤ 100 :=
    (Nat.length_toDigits_le_iff (by decide) (by decide)).2 h
  have h₁ : ¬ (310 : Int) < ((ofNat n).length : Int) + (0 - 0) := by
    unfold ofNat
    omega
  have h₂ : ¬ (308 : Int) < ((ofNat n).length : Int) + (0 - 0) := by
    unfold ofNat
    omega
  unfold Figure.isHuge
  simp only [Bool.false_eq_true, if_false, Int.natCast_zero, decide_eq_false h₁,
    decide_eq_false h₂, Bool.false_and, Bool.or_false, Bool.and_false]

/-- The digits of a number are scanned from where its first digit may stand. -/
theorem run_ofNat (b : Bool) {n : Nat} (hn : n < 10 ^ 100) (hpos : b = true → 0 < n)
    (hr : Stops r) : run (.number ⟨.sign, b, 0, 0, false, 0⟩) ((ofNat n).map .char ++ r) =
      .number (.whole (if b then -(n : Int) else n)) :: run .ground r := by
  obtain ⟨c, ds, heq, hdigit, hzero⟩ := ofNat_cons n
  obtain ⟨d, -, hc, hread, hd⟩ := exists_digit hdigit
  have hstep : step (.number ⟨.sign, b, 0, 0, false, 0⟩) (.char c) =
      ([], .number ⟨if d = 0 then .zero else .whole, b, d, 0, false, 0⟩) := by
    have hnext : (⟨.sign, b, 0, 0, false, 0⟩ : Figure).next c =
        .more ⟨if d = 0 then .zero else .whole, b, d, 0, false, 0⟩ := by
      unfold Figure.next
      rw [hread]
      unfold Figure.push
      by_cases hd : d = 0
      · simp [hd]
      · simp [hd]
    rw [step_number]
    unfold inNumber
    dsimp only
    rw [hnext]
  rw [heq, List.map_cons, List.cons_append, run_cons, hstep]
  show run _ _ = _
  rcases hzero with ⟨rfl, rfl, rfl⟩ | ⟨hn0, hne⟩
  · obtain rfl : d = 0 := hd.symm
    cases b with
    | true => exact absurd (hpos rfl) (by decide)
    | false => exact run_over (.inl rfl) rfl hr
  · have hd0 : d ≠ 0 := by
      rintro rfl
      exact hne hc
    have hvalue : Nat.ofDigitChars 10 ds d = n := by
      have hall : Nat.ofDigitChars 10 (ofNat n) 0 = n := Nat.ofDigitChars_ten_toDigits
      rw [heq, Nat.ofDigitChars_cons] at hall
      rw [← hd]
      simpa using hall
    rw [if_neg hd0, run_digits (fun x hx => isDigit_of_mem_ofNat (n := n) (by rw [heq]; simp [hx])),
      hvalue]
    refine run_over (.inr rfl) ?_ hr
    show some (if Figure.isHuge _ then _ else _) = _
    rw [isHuge_of_lt hn]
    rfl

theorem run_ofInt {n : Int} (hn : n.natAbs < 10 ^ 100) (hr : Stops r) :
    run .ground ((ofInt n).map .char ++ r) = .number (.whole n) :: run .ground r := by
  cases n with
  | ofNat n =>
    -- the first digit does the same from between tokens as from behind a sign
    have hsame : run .ground ((ofNat n).map .char ++ r) =
        run (.number ⟨.sign, false, 0, 0, false, 0⟩) ((ofNat n).map .char ++ r) := by
      obtain ⟨c, ds, heq, hdigit, -⟩ := ofNat_cons n
      obtain ⟨d, hlt, rfl, -, -⟩ := exists_digit hdigit
      rw [heq, List.map_cons, List.cons_append, run_cons, run_cons]
      interval_cases d <;> rfl
    exact hsame.trans (run_ofNat false hn (by simp) hr)
  | negSucc n => exact run_ofNat true hn (fun _ => Nat.succ_pos n) hr

/-! ### Strings -/

/-- The piece that a character is scanned as. -/
def pieceOf (c : Char) : Piece :=
  if c.toNat < 32 ∧ c ≠ '\n' ∧ c ≠ '\r' ∧ c ≠ '\t' ∧ c ≠ '\x08' ∧ c ≠ '\x0c' then .unit c.toNat
  else .char c

theorem hexValue?_hexDigit (n : Nat) : hexValue? (hexDigit n) = some (n % 16) := by
  unfold hexDigit
  have hlt : n % 16 < 16 := Nat.mod_lt _ (by decide)
  generalize n % 16 = d at hlt
  interval_cases d <;> rfl

theorem run_escaped (c : Char) (seen : List Piece) :
    run (.text seen) ((escaped c).map .char ++ r) = run (.text (pieceOf c :: seen)) r := by
  unfold escaped
  split
  · next h => subst h; rfl
  split
  · next h => subst h; rfl
  split
  · next h => subst h; rfl
  split
  · next h => subst h; rfl
  split
  · next h => subst h; rfl
  split
  · next h => subst h; rfl
  split
  · next h => subst h; rfl
  next hquote hback hn hr ht hb hf =>
  split
  · next hlt =>
    have hpiece : pieceOf c = .unit c.toNat := if_pos ⟨hlt, hn, hr, ht, hb, hf⟩
    have hcode : ∀ (count value n : Nat) (t : List Glyph),
        run (.code seen count value) (.char (hexDigit n) :: t) =
          if count = 3 then run (.text (.unit (16 * value + n % 16) :: seen)) t
          else run (.code seen (count + 1) (16 * value + n % 16)) t := by
      intro count value n t
      rw [run_cons, step_code]
      unfold inCode
      simp only [hexValue?_hexDigit]
      split <;> rfl
    have hvalue : 16 * (c.toNat / 16 % 16) + c.toNat % 16 = c.toNat := by omega
    rw [hpiece]
    show run (.code seen 2 0) (.char (hexDigit (c.toNat / 16)) :: .char (hexDigit c.toNat) :: r) = _
    rw [hcode, if_neg (by decide), hcode, if_pos rfl, Nat.mul_zero, Nat.zero_add, hvalue]
  · next hge =>
    have hpiece : pieceOf c = .char c := if_neg fun h => hge h.1
    have hstep : step (.text seen) (.char c) = ([], .text (.char c :: seen)) := by
      rw [step_text]
      unfold inText
      simp only [if_neg hquote, if_neg hback, if_neg hge]
    rw [hpiece]
    show run (.text seen) (.char c :: r) = _
    rw [run_cons, hstep]
    rfl

theorem chars?_pieces (s : List Char) : Piece.chars? (s.map pieceOf) = some s := by
  induction s with
  | nil => rfl
  | cons c s ih =>
    rw [List.map_cons]
    by_cases h : c.toNat < 32 ∧ c ≠ '\n' ∧ c ≠ '\r' ∧ c ≠ '\t' ∧ c ≠ '\x08' ∧ c ≠ '\x0c'
    · have hpiece : pieceOf c = .unit c.toNat := if_pos h
      have hlow : ¬ (0xD800 ≤ c.toNat ∧ c.toNat < 0xDC00) := by omega
      have hhigh : ¬ (0xDC00 ≤ c.toNat ∧ c.toNat < 0xE000) := by omega
      rw [hpiece, Piece.chars?.eq_def]
      simp only [if_neg hlow, if_neg hhigh, ih, Option.map_some, Char.ofNat_toNat]
    · have hpiece : pieceOf c = .char c := if_neg h
      rw [hpiece, Piece.chars?, ih, Option.map_some]

theorem run_flatMap_escaped (s : List Char) (seen : List Piece) :
    run (.text seen) ((s.flatMap escaped).map .char ++ r) =
      run (.text ((s.map pieceOf).reverse ++ seen)) r := by
  induction s generalizing seen with
  | nil => rfl
  | cons c s ih =>
    rw [List.flatMap_cons, List.map_append, List.append_assoc, run_escaped, ih, List.map_cons,
      List.reverse_cons, List.append_assoc]
    rfl

theorem run_string (s : String) :
    run .ground ((string s).map .char ++ r) = .text (some s) :: run .ground r := by
  have hsplit : (string s).map Glyph.char ++ r =
      .char '"' :: ((s.toList.flatMap escaped).map .char ++ .char '"' :: r) := by
    simp [string]
  rw [hsplit]
  show run (.text []) _ = _
  rw [run_flatMap_escaped, List.append_nil]
  show [Token.text ((Piece.chars? (s.toList.map pieceOf).reverse.reverse).map String.ofList)] ++
    run .ground r = _
  rw [List.reverse_reverse, chars?_pieces, Option.map_some, String.ofList_toList]
  rfl

/-! ### Values -/

theorem stops_of_mark {c : Char} (h : c ∈ [',', ']', '\x7d']) (r : List Glyph) :
    Stops (.char c :: r) := by
  intro d t heq
  obtain ⟨rfl, -⟩ : c = d ∧ r = t := by simpa using heq
  simp only [List.mem_cons, List.not_mem_nil, or_false] at h
  rcases h with rfl | rfl | rfl <;> decide

mutual

/-- **The text of a value is scanned as its tokens.** -/
theorem run_chars : (j : Json) → (r : List Glyph) → Moderate j → Stops r →
    run .ground (j.chars.map .char ++ r) = tokensOf j ++ run .ground r
  | .null, r, _, _ => rfl
  | .bool true, r, _, _ => rfl
  | .bool false, r, _, _ => rfl
  | .int n, r, hj, hr => run_ofInt hj hr
  | .text s, r, _, _ => run_string s
  | .list xs, r, hj, _ => by
    have hitems := run_itemChars xs (.char ']' :: r) hj (stops_of_mark (by simp) r)
    have hsplit : (Json.list xs).chars.map Glyph.char ++ r =
        .char '[' :: ((itemChars xs).map .char ++ .char ']' :: r) := by simp [chars]
    rw [hsplit]
    show [Token.listOpen] ++ run .ground _ = _
    rw [hitems]
    simp [tokensOf, run_cons, step, start]
  | .record fs, r, hj, _ => by
    have hfields := run_fieldChars fs (.char '\x7d' :: r) hj (stops_of_mark (by simp) r)
    have hsplit : (Json.record fs).chars.map Glyph.char ++ r =
        .char '\x7b' :: ((fieldChars fs).map .char ++ .char '\x7d' :: r) := by simp [chars]
    rw [hsplit]
    show [Token.recordOpen] ++ run .ground _ = _
    rw [hfields]
    simp [tokensOf, run_cons, step, start]

theorem run_itemChars : (xs : List Json) → (r : List Glyph) → AllModerate xs → Stops r →
    run .ground ((itemChars xs).map .char ++ r) = itemTokens xs ++ run .ground r
  | [], r, _, _ => rfl
  | [x], r, hx, hr => run_chars x r hx.1 hr
  | x :: y :: xs, r, hx, hr => by
    have hone := run_chars x (.char ',' :: ((itemChars (y :: xs)).map .char ++ r)) hx.1
      (stops_of_mark (by simp) _)
    have hrest := run_itemChars (y :: xs) r hx.2 hr
    have hsplit : (itemChars (x :: y :: xs)).map Glyph.char ++ r =
        x.chars.map .char ++ .char ',' :: ((itemChars (y :: xs)).map .char ++ r) := by
      simp [itemChars]
    rw [hsplit, hone]
    show _ ++ ([Token.comma] ++ run .ground _) = _
    rw [hrest]
    simp [itemTokens]

theorem run_fieldChars : (fs : List (String × Json)) → (r : List Glyph) → AllFieldsModerate fs →
    Stops r → run .ground ((fieldChars fs).map .char ++ r) = fieldTokens fs ++ run .ground r
  | [], r, _, _ => rfl
  | [(k, x)], r, hx, hr => by
    have hone := run_chars x r hx.1 hr
    have hsplit : (fieldChars [(k, x)]).map Glyph.char ++ r =
        (string k).map .char ++ .char ':' :: (x.chars.map .char ++ r) := by simp [fieldChars]
    rw [hsplit, run_string]
    show _ :: ([Token.colon] ++ run .ground _) = _
    rw [hone]
    simp [fieldTokens]
  | (k, x) :: f :: fs, r, hx, hr => by
    have hone := run_chars x (.char ',' :: ((fieldChars (f :: fs)).map .char ++ r)) hx.1
      (stops_of_mark (by simp) _)
    have hrest := run_fieldChars (f :: fs) r hx.2 hr
    have hsplit : (fieldChars ((k, x) :: f :: fs)).map Glyph.char ++ r =
        (string k).map .char ++ .char ':' :: (x.chars.map .char ++
          .char ',' :: ((fieldChars (f :: fs)).map .char ++ r)) := by simp [fieldChars]
    rw [hsplit, run_string]
    show _ :: ([Token.colon] ++ run .ground _) = _
    rw [hone]
    show _ :: ([Token.colon] ++ (_ ++ ([Token.comma] ++ run .ground _))) = _
    rw [hrest]
    simp [fieldTokens]

end

end Scan

end Takeaway.Json
