import Takeaway.Text.Utf8

/-!
Reading back what was written as UTF-8. Main statement: the bytes of a row of characters are read
as these characters, with no stray byte among them.
-/

namespace Takeaway.Text

/-! ### Bytes by their numbers -/

theorem toNat_ofNat {n : Nat} (h : n < 256) : (UInt8.ofNat n).toNat = n := by
  rw [UInt8.toNat_ofNat']
  omega

theorem continues_iff {b : UInt8} : continues b = true ↔ 128 ≤ b.toNat ∧ b.toNat ≤ 191 := by
  simp [continues, UInt8.le_iff_toNat_le]

theorem leadsThree_iff {a b : UInt8} : leadsThree a b = true ↔
    a.toNat = 224 ∧ 160 ≤ b.toNat ∧ b.toNat ≤ 191 ∨
    a.toNat = 237 ∧ 128 ≤ b.toNat ∧ b.toNat ≤ 159 ∨
    a.toNat ≠ 224 ∧ a.toNat ≠ 237 ∧ 225 ≤ a.toNat ∧ a.toNat ≤ 239 ∧
      128 ≤ b.toNat ∧ b.toNat ≤ 191 := by
  unfold leadsThree
  split
  · next h => simp [h, UInt8.le_iff_toNat_le]
  · next h =>
    have h₁ : a.toNat ≠ 224 := fun e => h (UInt8.toNat_inj.1 e)
    split
    · next h => simp [h, UInt8.le_iff_toNat_le]
    · next h =>
      have h₂ : a.toNat ≠ 237 := fun e => h (UInt8.toNat_inj.1 e)
      simp [h₁, h₂, continues_iff, UInt8.le_iff_toNat_le, and_assoc]

theorem leadsFour_iff {a b : UInt8} : leadsFour a b = true ↔
    a.toNat = 240 ∧ 144 ≤ b.toNat ∧ b.toNat ≤ 191 ∨
    a.toNat = 244 ∧ 128 ≤ b.toNat ∧ b.toNat ≤ 143 ∨
    a.toNat ≠ 240 ∧ a.toNat ≠ 244 ∧ 241 ≤ a.toNat ∧ a.toNat ≤ 243 ∧
      128 ≤ b.toNat ∧ b.toNat ≤ 191 := by
  unfold leadsFour
  split
  · next h => simp [h, UInt8.le_iff_toNat_le]
  · next h =>
    have h₁ : a.toNat ≠ 240 := fun e => h (UInt8.toNat_inj.1 e)
    split
    · next h => simp [h, UInt8.le_iff_toNat_le]
    · next h =>
      have h₂ : a.toNat ≠ 244 := fun e => h (UInt8.toNat_inj.1 e)
      simp [h₁, h₂, continues_iff, UInt8.le_iff_toNat_le, and_assoc]

/-! ### The first character of a row of bytes -/

section Leading

variable {a b c d : UInt8} {r : Bytes}

theorem leading?_one (ha : a.toNat < 128) : leading? a r = some (Char.ofNat a.toNat, 0) := by
  have h : a < 0x80 := UInt8.lt_iff_toNat_lt.2 ha
  unfold leading?
  rw [if_pos h]

theorem leading?_two (h₁ : 194 ≤ a.toNat) (h₂ : a.toNat ≤ 223) (hb : continues b = true) :
    leading? a (b :: r) = some (Char.ofNat (a.toNat % 32 * 64 + tailBits b), 1) := by
  have h : ¬ a < 0x80 := fun h => by
    have : a.toNat < 128 := UInt8.lt_iff_toNat_lt.1 h
    omega
  have hlead : (0xC2 ≤ a && a ≤ 0xDF && continues b) = true := by
    simp [UInt8.le_iff_toNat_le, h₁, h₂, hb]
  simp only [leading?, if_neg h, hlead, if_true]

theorem leading?_three (hab : leadsThree a b = true) (hc : continues c = true) :
    leading? a (b :: c :: r) =
      some (Char.ofNat ((a.toNat % 16 * 64 + tailBits b) * 64 + tailBits c), 2) := by
  have ha : 224 ≤ a.toNat := by
    have := leadsThree_iff.1 hab
    omega
  have h : ¬ a < 0x80 := fun h => by
    have : a.toNat < 128 := UInt8.lt_iff_toNat_lt.1 h
    omega
  have hlead : (0xC2 ≤ a && a ≤ 0xDF && continues b) = false := by
    have : ¬ a.toNat ≤ 223 := by omega
    simp [UInt8.le_iff_toNat_le, this]
  simp [leading?, if_neg h, hlead, hab, hc]

theorem leading?_four (hab : leadsFour a b = true) (hc : continues c = true)
    (hd : continues d = true) : leading? a (b :: c :: d :: r) =
      some (Char.ofNat (((a.toNat % 8 * 64 + tailBits b) * 64 + tailBits c) * 64 + tailBits d),
        3) := by
  have ha : 240 ≤ a.toNat := by
    have := leadsFour_iff.1 hab
    omega
  have h : ¬ a < 0x80 := fun h => by
    have : a.toNat < 128 := UInt8.lt_iff_toNat_lt.1 h
    omega
  have hlead : (0xC2 ≤ a && a ≤ 0xDF && continues b) = false := by
    have : ¬ a.toNat ≤ 223 := by omega
    simp [UInt8.le_iff_toNat_le, this]
  have hthree : leadsThree a b = false := by
    rw [← Bool.not_eq_true, leadsThree_iff]
    omega
  simp [leading?, if_neg h, hlead, hthree, hab, hc, hd]

end Leading

/-- The bytes of a character are read as that character, whatever follows. -/
theorem leading?_encode (c : Char) : ∃ a t, String.utf8EncodeChar c = a :: t ∧
    ∀ r, leading? a (t ++ r) = some (c, t.length) := by
  have hvalid : c.toNat < 0xD800 ∨ (0xDFFF < c.toNat ∧ c.toNat < 0x110000) := c.valid
  have hc : Char.ofNat c.toNat = c := Char.ofNat_toNat c
  unfold String.utf8EncodeChar
  rw [Char.toNat_val]
  generalize c.toNat = n at hvalid hc
  have htail : ∀ k, continues (UInt8.ofNat (k % 64 + 128)) = true ∧
      tailBits (UInt8.ofNat (k % 64 + 128)) = k % 64 := fun k => by
    unfold tailBits
    rw [continues_iff, toNat_ofNat (by omega)]
    omega
  have hlast := htail n
  have hmiddle := htail (n / 64)
  have hfirst := htail (n / 4096)
  dsimp only
  split
  · refine ⟨_, _, rfl, fun r => ?_⟩
    rw [leading?_one (by rw [toNat_ofNat (by omega)]; omega), toNat_ofNat (by omega), hc]
    rfl
  split
  · have ha : (UInt8.ofNat (n / 64 % 32 + 192)).toNat = n / 64 % 32 + 192 :=
      toNat_ofNat (by omega)
    refine ⟨_, _, rfl, fun r => ?_⟩
    have hn : (n / 64 % 32 + 192) % 32 * 64 + n % 64 = n := by omega
    rw [List.singleton_append, leading?_two (by omega) (by omega) hlast.1, ha, hlast.2, hn, hc]
    rfl
  split
  · have ha : (UInt8.ofNat (n / 4096 % 16 + 224)).toNat = n / 4096 % 16 + 224 :=
      toNat_ofNat (by omega)
    have hb : (UInt8.ofNat (n / 64 % 64 + 128)).toNat = n / 64 % 64 + 128 :=
      toNat_ofNat (by omega)
    have hlead : leadsThree (UInt8.ofNat (n / 4096 % 16 + 224))
        (UInt8.ofNat (n / 64 % 64 + 128)) = true := by
      rw [leadsThree_iff, ha, hb]
      omega
    refine ⟨_, _, rfl, fun r => ?_⟩
    have hn : ((n / 4096 % 16 + 224) % 16 * 64 + n / 64 % 64) * 64 + n % 64 = n := by omega
    rw [List.cons_append, List.singleton_append, leading?_three hlead hlast.1, ha, hmiddle.2,
      hlast.2, hn, hc]
    rfl
  · have ha : (UInt8.ofNat (n / 262144 % 8 + 240)).toNat = n / 262144 % 8 + 240 :=
      toNat_ofNat (by omega)
    have hb : (UInt8.ofNat (n / 4096 % 64 + 128)).toNat = n / 4096 % 64 + 128 :=
      toNat_ofNat (by omega)
    have hlead : leadsFour (UInt8.ofNat (n / 262144 % 8 + 240))
        (UInt8.ofNat (n / 4096 % 64 + 128)) = true := by
      rw [leadsFour_iff, ha, hb]
      omega
    refine ⟨_, _, rfl, fun r => ?_⟩
    have hn : (((n / 262144 % 8 + 240) % 8 * 64 + n / 4096 % 64) * 64 + n / 64 % 64) * 64 +
        n % 64 = n := by omega
    rw [List.cons_append, List.cons_append, List.singleton_append,
      leading?_four hlead hmiddle.1 hlast.1, ha, hfirst.2, hmiddle.2, hlast.2, hn, hc]
    rfl

/-! ### Whole rows -/

theorem glyphsFrom_append (t r : Bytes) : glyphsFrom t.length (t ++ r) = glyphsFrom 0 r := by
  induction t with
  | nil => rfl
  | cons a t ih => exact ih

/-- **The bytes of a row of characters are read as these characters.** -/
theorem glyphs_toBytes (s : List Char) : glyphs (toBytes s) = s.map .char := by
  unfold glyphs toBytes
  induction s with
  | nil => rfl
  | cons c s ih =>
    obtain ⟨a, t, hc, hlead⟩ := leading?_encode c
    rw [List.flatMap_cons, hc, List.cons_append, glyphsFrom, hlead]
    show .char c :: glyphsFrom t.length (t ++ _) = _
    rw [glyphsFrom_append, ih]
    rfl

end Takeaway.Text
