import Takeaway.Proofs.Json.Doc
import Mathlib.Data.List.Nodup

/-!
What readers make of the documents of written values. Main statements: a written list is read item
by item, and in a written record each field is found under its own name, whichever of the fields
that may be left out are missing.
-/

namespace Takeaway.Json

open Takeaway.Text

variable {α : Type}

/-! ### Single values -/

theorem Reader.whole_int {accept : Int → Bool} {n : Int} (h : accept n = true) :
    Reader.whole accept (Json.int n).doc = .ok n := if_pos h

theorem Reader.quantity_int (q : Quantity) : Reader.quantity (Json.int q.units).doc = .ok q := by
  have hread :
      Reader.whole (fun n => decide (0 ≤ n)) (Json.int q.units).doc = .ok (q.units : Int) :=
    whole_int (decide_eq_true (Int.natCast_nonneg _))
  have hfits : Quantity.ofNat? q.units = some q := dif_pos q.fits
  unfold Reader.quantity
  rw [hread]
  simp only [bind, Except.bind, Int.toNat_natCast, hfits]

/-! ### Lists -/

/-- A list is read back whose items are read back. -/
theorem Reader.list_map {read : Reader α} {f : α → Json} {l : List α}
    (h : ∀ a ∈ l, read (f a).doc = .ok a) : Reader.list read (Json.list (l.map f)).doc = .ok l := by
  have hall : (docs (l.map f)).mapM read = .ok l := by
    induction l with
    | nil => rfl
    | cons a l ih =>
      obtain ⟨ha, hl⟩ := List.forall_mem_cons.1 h
      rw [List.map_cons, docs, List.mapM_cons, ha, ih hl]
      rfl
  show (do let xs ← (docs (l.map f)).mapM read
           if true then Except.ok xs else .error .malformed) = _
  rw [hall]
  rfl

theorem allModerate_map {f : α → Json} {l : List α} (h : ∀ a ∈ l, (f a).Moderate) :
    AllModerate (l.map f) := by
  induction l with
  | nil => trivial
  | cons a l ih =>
    obtain ⟨ha, hl⟩ := List.forall_mem_cons.1 h
    exact ⟨ha, ih hl⟩

/-! ### Records -/

/-- A record without the members under a key. -/
def without (j : Json) (k : String) : Json :=
  match j with
  | .record ms => .record (ms.filter fun m => m.1 != k)
  | j => j

theorem allFieldsModerate_iff {ms : List (String × Json)} :
    AllFieldsModerate ms ↔ ∀ m ∈ ms, m.2.Moderate := by
  induction ms with
  | nil => simp [AllFieldsModerate]
  | cons m ms ih => rw [List.forall_mem_cons, ← ih]; rfl

theorem Moderate.without {ms : List (String × Json)} (h : (Json.record ms).Moderate) (k : String) :
    ((Json.record ms).without k).Moderate :=
  allFieldsModerate_iff.2 fun m hm => allFieldsModerate_iff.1 h m (List.mem_of_mem_filter hm)

theorem lookup_without (ms : List (String × Json)) (k n : String) :
    (ms.filter fun m => m.1 != k).lookup n = if n = k then none else ms.lookup n := by
  induction ms with
  | nil => simp
  | cons m ms ih =>
    obtain ⟨key, x⟩ := m
    by_cases hk : key = k
    · subst hk
      rw [List.filter_cons_of_neg (by simp), ih, List.lookup_cons]
      split
      · rfl
      · next hn => rw [beq_false_of_ne hn]
    · rw [List.filter_cons_of_pos (by simp [hk]), List.lookup_cons, List.lookup_cons, ih]
      by_cases hn : n = key
      · subst hn
        simp [hk]
      · rw [beq_false_of_ne hn]

namespace Reader

variable {fs : List Field} {ms : List (String × Json)}

/-- Every member of a record is found under its key, if each is a field of its own in which nothing
is refused. -/
theorem findMembers_members (found : Found)
    (hknown : ∀ m ∈ ms, ∃ f, fs.find? (·.name == m.1) = some f ∧ f.check m.2.doc = .ok ())
    (hnew : ∀ m ∈ ms, found.lookup m.1 = none) (hkeys : (ms.map (·.1)).Nodup) :
    ∃ all, findMembers fs found (members ms) = .ok all ∧
      ∀ k, all.lookup k = ((ms.lookup k).map doc).or (found.lookup k) := by
  induction ms generalizing found with
  | nil => exact ⟨found, rfl, fun k => rfl⟩
  | cons m ms ih =>
    obtain ⟨key, x⟩ := m
    obtain ⟨⟨f, hfind, hcheck⟩, hknown⟩ := List.forall_mem_cons.1 hknown
    obtain ⟨hm, hnew⟩ := List.forall_mem_cons.1 hnew
    obtain ⟨hnot, hkeys⟩ := List.nodup_cons.1 hkeys
    have hrest : ∀ n ∈ ms, List.lookup n.1 ((key, x.doc) :: found) = none := by
      intro n hn
      have hne : (n.1 == key) = false := beq_false_of_ne fun h =>
        hnot (List.mem_map.2 ⟨n, hn, h⟩)
      rw [List.lookup_cons, hne]
      exact hnew n hn
    obtain ⟨all, hall, hlookup⟩ := ih _ hknown hrest hkeys
    refine ⟨all, ?_, fun k => ?_⟩
    · rw [members, findMembers, hfind]
      dsimp only at hm hcheck ⊢
      rw [hm, if_neg (by simp), hcheck]
      exact hall
    · rw [hlookup, List.lookup_cons, List.lookup_cons]
      by_cases hk : k = key
      · subst hk
        have hnone : ms.lookup k = none := by
          rw [List.lookup_eq_none_iff]
          intro n hn
          exact bne_iff_ne.2 fun h => hnot (List.mem_map.2 ⟨n, hn, h.symm⟩)
        rw [hnone, beq_self_eq_true]
        rfl
      · rw [beq_false_of_ne hk]

theorem isSome_lookup (k : String) (ms : List (String × Json)) :
    (ms.lookup k).isSome = (ms.map (·.1)).contains k := by
  induction ms with
  | nil => rfl
  | cons m ms ih =>
    rw [List.lookup_cons, List.map_cons, List.contains_cons]
    cases k == m.1 with
    | true => rfl
    | false => exact ih

/-- The members of a record are fields, each once and with nothing in it that is refused, and no
field is missing but those that may be left out. -/
structure Suits (fs : List Field) (ms : List (String × Json)) : Prop where
  known : ∀ m ∈ ms, ∃ f, fs.find? (·.name == m.1) = some f ∧ f.check m.2.doc = .ok ()
  keys : (ms.map (·.1)).Nodup
  all : (fs.all fun f => f.mayMiss || (ms.map (·.1)).contains f.name) = true

/-- **In a written record every field is found under its own name**, and no other is. -/
theorem Suits.fields_record (h : Suits fs ms) : ∃ found,
    fields fs (Json.record ms).doc = .ok found ∧ ∀ k, found.lookup k = (ms.lookup k).map doc := by
  obtain ⟨found, hfound, hlookup⟩ := findMembers_members [] h.known (by simp) h.keys
  have hlookup : ∀ k, found.lookup k = (ms.lookup k).map doc := fun k => by
    rw [hlookup, List.lookup_nil, Option.or_none]
  have hsome : ∀ k, (found.lookup k).isSome = (ms.map (·.1)).contains k := by
    intro k
    rw [hlookup, Option.isSome_map, isSome_lookup]
  refine ⟨found, ?_, hlookup⟩
  show (do let found ← findMembers fs [] (members ms)
           if (!true) = true then Except.error Misread.malformed
           else if (fs.all fun f => f.mayMiss || (found.lookup f.name).isSome) = true then .ok found
           else .error Misread.mismatched) = _
  rw [hfound]
  show (if (fs.all fun f => f.mayMiss || (found.lookup f.name).isSome) = true then Except.ok found
    else .error Misread.mismatched) = _
  simp only [hsome, h.all, if_true]

/-- A field that may be left out may be left out. -/
theorem Suits.without (h : Suits fs ms) {k : String}
    (hk : (fs.all fun f => f.mayMiss || f.name != k) = true) :
    Suits fs (ms.filter fun m => m.1 != k) where
  known m hm := h.known m (List.mem_of_mem_filter hm)
  keys := h.keys.sublist (List.Sublist.map _ List.filter_sublist)
  all := by
    have hall := h.all
    rw [List.all_eq_true] at hall hk ⊢
    intro f hf
    have h₁ := hall f hf
    have h₂ := hk f hf
    simp only [Bool.or_eq_true, List.contains_iff_mem, List.mem_map, List.mem_filter,
      bne_iff_ne] at h₁ h₂ ⊢
    rcases h₂ with h₂ | h₂
    · exact .inl h₂
    · refine h₁.imp_right ?_
      rintro ⟨m, hm, hname⟩
      exact ⟨m, ⟨hm, hname ▸ h₂⟩, hname⟩

theorem Found.get_of_lookup {found : Found} {name : String} {read : Reader α} {d : Doc}
    (h : found.lookup name = some d) : found.get name read = read d := by
  unfold Found.get
  rw [h]

theorem Found.get?_of_lookup {found : Found} {name : String} {read : Reader α} {d : Doc}
    (h : found.lookup name = some d) : found.get? name read = (read d).map some := by
  unfold Found.get?
  rw [h]

theorem Found.get?_of_missing {found : Found} {name : String} {read : Reader α}
    (h : found.lookup name = none) : found.get? name read = .ok none := by
  unfold Found.get?
  rw [h]

/-- Nothing is refused in a field that is read. -/
theorem check_field {name : String} {read : Reader α} {d : Doc} {a : α} (h : read d = .ok a) :
    (field name read).check d = .ok () := by
  show (read d).map _ = _
  rw [h]
  rfl

theorem check_fieldOr {name : String} {read : Reader α} {d : Doc} {a : α} (h : read d = .ok a) :
    (fieldOr name read).check d = .ok () := (check_field h : (field name read).check d = .ok ())

/-- A record of texts is read back entry by entry. -/
theorem texts_map (es : List (String × String)) :
    texts (Json.record (es.map fun e => (e.1, .text e.2))).doc = .ok es := by
  unfold texts
  dsimp only [doc]
  suffices h : ∀ read : Option String × Doc → Except Misread (String × String),
      (∀ k s, read (some k, .text (some s)) = .ok (k, s)) →
      (members (es.map fun e => (e.1, Json.text e.2))).mapM read = .ok es by
    rw [h _ fun _ _ => rfl]
    rfl
  intro read hread
  induction es with
  | nil => rfl
  | cons e es ih =>
    rw [List.map_cons, members, List.mapM_cons, ih, doc, hread]
    rfl

end Reader

end Takeaway.Json
