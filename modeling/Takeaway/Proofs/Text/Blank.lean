import Takeaway.Text.Blank
import Mathlib.Data.List.TakeWhile

/-!
What trimming leaves. Main statements: a text is what is left of it with blanks on both sides, what
is left has no blank at either end, and no other part of the text is so.
-/

namespace Takeaway.Text

variable {s core : List Char}

/-- A text without a blank at either end. -/
structure Trimmed (s : List Char) : Prop where
  head : ∀ c ∈ s.head?, isBlank c = false
  last : ∀ c ∈ s.getLast?, isBlank c = false

/-- A text that is another one with blanks before and behind it. -/
def Framed (s core : List Char) : Prop :=
  ∃ front behind, s = front ++ core ++ behind ∧ (∀ c ∈ front, isBlank c = true) ∧
    ∀ c ∈ behind, isBlank c = true

theorem mem_of_framed (h : Framed s core) {c : Char} (hc : c ∈ core) : c ∈ s := by
  obtain ⟨front, behind, rfl, -, -⟩ := h
  exact List.mem_append_left _ (List.mem_append_right _ hc)

theorem trimmed_of_not_blank (h : ∀ c ∈ s, isBlank c = false) : Trimmed s :=
  ⟨fun c hc => h c (List.mem_of_mem_head? hc), fun c hc => h c (List.mem_of_mem_getLast? hc)⟩

/-! ### Leading and trailing blanks -/

theorem head_trimStart (s : List Char) : ∀ c ∈ (trimStart s).head?, isBlank c = false := by
  intro c hc
  have h := List.head?_dropWhile_not isBlank s
  rw [show s.dropWhile isBlank = trimStart s from rfl, Option.mem_def.1 hc] at h
  simpa using h

theorem exists_trimStart (s : List Char) :
    ∃ front, s = front ++ trimStart s ∧ ∀ c ∈ front, isBlank c = true :=
  ⟨s.takeWhile isBlank, List.takeWhile_append_dropWhile.symm, fun _ hc =>
    List.mem_takeWhile_imp hc⟩

theorem trimStart_append {front : List Char} (h : ∀ c ∈ front, isBlank c = true) (s : List Char) :
    trimStart (front ++ s) = trimStart s := List.dropWhile_append_of_pos h

theorem trimStart_of_head (h : ∀ c ∈ s.head?, isBlank c = false) : trimStart s = s := by
  cases s with
  | nil => rfl
  | cons c r => exact List.dropWhile_cons_of_neg (by simp [h c rfl])

/-- Trailing blanks are the leading ones of the text read backwards. -/
theorem trimEnd_eq (s : List Char) : trimEnd s = (trimStart s.reverse).reverse := rfl

theorem last_trimEnd (s : List Char) : ∀ c ∈ (trimEnd s).getLast?, isBlank c = false := by
  intro c hc
  rw [trimEnd_eq, List.getLast?_reverse] at hc
  exact head_trimStart s.reverse c hc

theorem exists_trimEnd (s : List Char) :
    ∃ behind, s = trimEnd s ++ behind ∧ ∀ c ∈ behind, isBlank c = true := by
  obtain ⟨front, heq, hblank⟩ := exists_trimStart s.reverse
  refine ⟨front.reverse, ?_, fun c hc => hblank c (List.mem_reverse.1 hc)⟩
  rw [trimEnd_eq, ← List.reverse_append, ← heq, List.reverse_reverse]

theorem trimEnd_append {behind : List Char} (h : ∀ c ∈ behind, isBlank c = true) (s : List Char) :
    trimEnd (s ++ behind) = trimEnd s := by
  rw [trimEnd_eq, List.reverse_append,
    trimStart_append fun c hc => h c (List.mem_reverse.1 hc), trimEnd_eq]

theorem trimEnd_of_last (h : ∀ c ∈ s.getLast?, isBlank c = false) : trimEnd s = s := by
  rw [trimEnd_eq, trimStart_of_head, List.reverse_reverse]
  rwa [List.head?_reverse]

/-! ### Both ends -/

theorem trimmed_trim (s : List Char) : Trimmed (trim s) := by
  refine ⟨fun c hc => ?_, last_trimEnd (trimStart s)⟩
  -- where anything is left, the trailing blanks do not reach to its first character
  obtain ⟨behind, heq, -⟩ := exists_trimEnd (trimStart s)
  refine head_trimStart s c ?_
  rw [heq, Option.mem_def, List.head?_append]
  rw [show trimEnd (trimStart s) = trim s from rfl, Option.mem_def.1 hc]
  rfl

/-- A text is what trimming leaves of it, with blanks on both sides. -/
theorem framed_trim (s : List Char) : Framed s (trim s) := by
  obtain ⟨front, hfront, hbefore⟩ := exists_trimStart s
  obtain ⟨behind, hbehind, hafter⟩ := exists_trimEnd (trimStart s)
  refine ⟨front, behind, ?_, hbefore, hafter⟩
  rw [List.append_assoc, show trim s = trimEnd (trimStart s) from rfl, ← hbehind]
  exact hfront

theorem trim_of_trimmed (h : Trimmed s) : trim s = s := by
  unfold trim
  rw [trimStart_of_head h.head, trimEnd_of_last h.last]

theorem trim_trim (s : List Char) : trim (trim s) = trim s := trim_of_trimmed (trimmed_trim s)

theorem trim_of_blank (h : ∀ c ∈ s, isBlank c = true) : trim s = [] := by
  have hstart := trimStart_append h []
  rw [List.append_nil] at hstart
  unfold trim
  rw [hstart]
  rfl

/-- **Trimming leaves the one part of a text** that has no blank at either end and nothing but
blanks around it. -/
theorem trim_eq_iff : trim s = core ↔ Framed s core ∧ Trimmed core := by
  constructor
  · rintro rfl
    exact ⟨framed_trim s, trimmed_trim s⟩
  · rintro ⟨⟨front, behind, rfl, hfront, hbehind⟩, h⟩
    unfold trim
    rw [List.append_assoc, trimStart_append hfront]
    cases core with
    | nil =>
      rw [List.nil_append]
      exact trim_of_blank hbehind
    | cons c r =>
      have hhead : ∀ d ∈ (c :: r ++ behind).head?, isBlank d = false := h.head
      rw [trimStart_of_head hhead, trimEnd_append hbehind, trimEnd_of_last h.last]

end Takeaway.Text
