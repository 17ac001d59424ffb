import Takeaway.Proofs.Message.Codec
import Takeaway.Proofs.Text.Grammar

/-!
Order numbers as text and as headers. Main statement: an order number is read from exactly the texts
that are a whole number of 64 binary digits among blanks, every other text is handed back as it was
given, and a number that was written, by itself or as the header of an envelope, is read as itself.
-/

namespace Takeaway

namespace Envelope

/-! ### Envelopes in the making -/

/-- Something that is set in an envelope, other than the number of an order. -/
inductive Call where
  | header (name value : String)
  | tag (tag : String)
  | event (event : Event)
  | key (key : String)
  | payload (b : Text.Bytes)
  | time (time : Timestamp)

/-- The header that is set, if one is. -/
def Call.header? : Call → Option String
  | header name _ => some name
  | tag _ | event _ => some eventHeader
  | key _ | payload _ | time _ => none

/-- The envelope with something set in it. -/
def called (e : Envelope) : Call → Envelope
  | .header name value => e.withHeader name value
  | .tag tag => e.withTag tag
  | .event event => e.withEvent event
  | .key key => e.withKey key
  | .payload b => e.withBytes b
  | .time time => e.withTime time

/-- The envelope with some things set in it, one after the other. -/
def made (e : Envelope) (calls : List Call) : Envelope := calls.foldl called e

variable {e : Envelope} {name : String}

theorem header?_called {c : Call} (h : c.header? ≠ some name) :
    (e.called c).header? name = e.header? name := by
  have hne : ∀ {other}, c.header? = some other → other ≠ name := by
    rintro other hc rfl
    exact h hc
  cases c with
  | header other value => exact header?_withHeader_of_ne e value (hne rfl)
  | tag tag => exact header?_withHeader_of_ne e tag (hne rfl)
  | event event => exact header?_withHeader_of_ne e event.tag (hne rfl)
  | key _ => rfl
  | payload _ => rfl
  | time _ => rfl

/-- A header keeps its value as long as no header of its name is set. -/
theorem header?_made {calls : List Call} (h : ∀ c ∈ calls, c.header? ≠ some name) :
    (e.made calls).header? name = e.header? name := by
  induction calls generalizing e with
  | nil => rfl
  | cons c r ih =>
    obtain ⟨hc, hr⟩ := List.forall_mem_cons.1 h
    exact (ih hr).trans (header?_called hc)

end Envelope

namespace OrderNumber

/-! ### Texts of a number -/

/-- A text is the number among blanks, and the number has 64 binary digits at most, sign
included. -/
def StandsIn (n : OrderNumber) (s : String) : Prop :=
  ∃ core, Text.Framed s.toList core ∧ Text.DenotesInt core n.value ∧
    -(2 ^ 63) ≤ n.value ∧ n.value < 2 ^ 63

theorem fits_iff {n : OrderNumber} : n.Fits ↔ -(2 ^ 63) ≤ n.value ∧ n.value < 2 ^ 63 :=
  Text.fitsSigned_iff 64 n.value

/-- What is read is what trimming leaves. -/
theorem read_eq_ok_iff {s : String} {n : OrderNumber} :
    read s = .ok n ↔ Text.intWithin? 64 (Text.trim s.toList) = some n.value := by
  unfold read
  split
  · next z hz =>
    rw [hz]
    exact ⟨fun h => by cases h; rfl, fun h => by cases h; rfl⟩
  · next hz =>
    rw [hz]
    exact ⟨nofun, nofun⟩

/-- **A number is read from exactly the texts in which it stands.** -/
theorem read_iff_standsIn {s : String} {n : OrderNumber} : read s = .ok n ↔ n.StandsIn s := by
  rw [read_eq_ok_iff, Text.intWithin?_eq_some_iff, Text.fitsSigned_iff]
  constructor
  · rintro ⟨hdenotes, hfits⟩
    exact ⟨_, Text.framed_trim s.toList, hdenotes, hfits⟩
  · rintro ⟨core, hframed, hdenotes, hfits⟩
    rw [Text.trim_eq_iff.2 ⟨hframed, hdenotes.trimmed⟩]
    exact ⟨hdenotes, hfits⟩

/-- What cannot be read is handed back as it was given. -/
theorem read_error_iff {s : String} {u : Unreadable} :
    read s = .error u ↔ u = ⟨s⟩ ∧ ∀ n : OrderNumber, ¬ n.StandsIn s := by
  cases hread : read s with
  | ok n =>
    refine ⟨nofun, fun h => ?_⟩
    exact absurd (read_iff_standsIn.1 hread) (h.2 n)
  | error v =>
    have hnone : ∀ n : OrderNumber, ¬ n.StandsIn s := fun n hn => by
      rw [read_iff_standsIn.2 hn] at hread
      cases hread
    have hgiven : v = ⟨s⟩ := by
      unfold read at hread
      split at hread
      · cases hread
      · exact (Except.error.inj hread).symm
    subst hgiven
    exact ⟨fun h => ⟨(Except.error.inj h).symm, hnone⟩, fun h => by rw [h.1]⟩

/-! ### Main statement -/

/-- **Order numbers are read exactly.** A text gives a number if and only if it is the number among
blanks, in digits with or without a sign, and the number fits; any other text is handed back as it
was given. A number that fits is read back from its own text, and from the envelope that carries it,
whatever else is set in that before and after, short of another order number. -/
theorem read_exactly :
    (∀ s n, read s = .ok n ↔ n.StandsIn s) ∧
    (∀ s u, read s = .error u ↔ u = ⟨s⟩ ∧ ∀ n : OrderNumber, ¬ n.StandsIn s) ∧
    (∀ n : OrderNumber, -(2 ^ 63) ≤ n.value ∧ n.value < 2 ^ 63 →
      read n.text = .ok n ∧
      ∀ (e : Envelope) (calls : List Envelope.Call),
        (∀ c ∈ calls, c.header? ≠ some Envelope.orderHeader) →
          ((e.withOrder n).made calls).orderNumber = .ok n) := by
  refine ⟨fun s n => read_iff_standsIn, fun s u => read_error_iff, fun n hn => ?_⟩
  have hfits : n.Fits := fits_iff.2 hn
  refine ⟨read_text hfits, fun e calls hcalls => ?_⟩
  refine Envelope.orderNumber_of_header? ?_ hfits
  rw [Envelope.header?_made hcalls]
  exact Envelope.header?_withHeader_self e _ _

/-- The lowest number, with zeros before it and wide blanks around it, and as the header of an
envelope; and a text of a number that is too high by one. -/
theorem read_exactly_ends :
    let n : OrderNumber := ⟨-9223372036854775808⟩
    let e := Envelope.blank (Timestamp.ofMillis 0)
    let high := "+9223372036854775808"
    read "\u2003-009223372036854775808\u00a0\n" = .ok n ∧
      (∀ k : OrderNumber, ¬ k.StandsIn high) ∧
      (-(2 ^ 63) ≤ n.value ∧ n.value < 2 ^ 63) ∧ read n.text = .ok n ∧
      ((e.withOrder n).made [.header "source" "7", .event .orderPlaced]).orderNumber = .ok n := by
  intro n e high
  obtain ⟨hread, herror, hwritten⟩ := read_exactly
  have hfits : -(2 ^ 63) ≤ n.value ∧ n.value < 2 ^ 63 := by decide
  obtain ⟨htext, hheader⟩ := hwritten n hfits
  have hhigh : read high = .error ⟨high⟩ := by decide +kernel
  refine ⟨(hread _ n).2 ?_, ((herror high ⟨high⟩).1 hhigh).2, hfits, htext, hheader e _ ?_⟩
  · have hblanks : "\u2003-009223372036854775808\u00a0\n".toList =
        ['\u2003'] ++ "-009223372036854775808".toList ++ ['\u00a0', '\n'] := by decide +kernel
    refine ⟨_, ⟨_, _, hblanks, List.all_eq_true.1 (by decide), List.all_eq_true.1 (by decide)⟩,
      .minus (n := 9223372036854775808) ⟨by decide, ?_, by decide +kernel⟩, hfits⟩
    exact List.all_eq_true.1 (by decide +kernel)
  · simp [Envelope.Call.header?, Envelope.orderHeader, Envelope.eventHeader]

end OrderNumber

end Takeaway
