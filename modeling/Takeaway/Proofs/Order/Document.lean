import Takeaway.Order.Document
import Takeaway.Proofs.Json.Decode
import Takeaway.Proofs.Time.Timestamp

/-!
Orders are read back from their documents. Main statement: the text of an order is read as that
order, whatever is in it, and of an order with an empty log also when the log is left out.
-/

namespace Takeaway

open Json (Reader)

/-! ### Parts of an order -/

theorem OrderNumber.reader_value {n : OrderNumber} (h : n.Fits) :
    reader (Json.int n.value).doc = .ok n := congrArg (Except.map mk) (Reader.whole_int h)

theorem CustomerId.reader_value {c : CustomerId} (h : c.Fits) :
    reader (Json.int c.value).doc = .ok c := congrArg (Except.map mk) (Reader.whole_int h)

theorem Status.reader_name (s : Status) : reader (Json.text s.name).doc = .ok s := by
  cases s <;> rfl

theorem Timestamp.reader_text {t : Timestamp} (h : t.isValid = true) :
    reader (Json.text t.text).doc = .ok t := by
  have htext : Reader.text (Json.text t.text).doc = .ok t.text := rfl
  simp only [reader, htext, bind, Except.bind, read?_text h]

/-! ### Lines -/

namespace Item

/-- A line is read back from a record of its name, under whatever key, and its quantity. -/
theorem read_line {key : String} (hkey : key ≠ "quantity") (i : Item) :
    (do let f ← Reader.fields
          [Reader.field key Reader.text, Reader.field "quantity" Reader.quantity]
          (Json.record [(key, .text i.name), ("quantity", .int i.quantity.units)]).doc
        return (⟨← f.get key Reader.text, ← f.get "quantity" Reader.quantity⟩ : Item)) = .ok i := by
  have hsuits : Reader.Suits [Reader.field key Reader.text, Reader.field "quantity" Reader.quantity]
      [(key, .text i.name), ("quantity", .int i.quantity.units)] := by
    refine ⟨?_, by simp [hkey], by simp [Reader.field]⟩
    simp only [List.forall_mem_cons]
    exact ⟨⟨Reader.field key Reader.text, by simp [Reader.field], Reader.check_field rfl⟩,
      ⟨Reader.field "quantity" Reader.quantity, by simp [Reader.field, hkey],
        Reader.check_field (Reader.quantity_int _)⟩, by simp⟩
  obtain ⟨found, hfound, hlookup⟩ := hsuits.fields_record
  have hname : found.lookup key = some (Json.text i.name).doc := by
    rw [hlookup]
    simp
  have hquantity : found.lookup "quantity" = some (Json.int i.quantity.units).doc := by
    rw [hlookup]
    simp [List.lookup_cons, beq_false_of_ne hkey.symm]
  rw [hfound]
  show (do
    return (⟨← found.get key Reader.text, ← found.get "quantity" Reader.quantity⟩ : Item)) = _
  rw [Reader.Found.get_of_lookup hname, Reader.Found.get_of_lookup hquantity, Reader.quantity_int]
  rfl

theorem reader_document (i : Item) : reader i.document.doc = .ok i := read_line (by decide) i

theorem moderate_units (i : Item) : i.quantity.units < 10 ^ 100 :=
  lt_of_le_of_lt i.quantity.fits (by norm_num)

theorem moderate_document (i : Item) : i.document.Moderate := ⟨trivial, i.moderate_units, trivial⟩

end Item

/-! ### Orders -/

namespace Order

/-- An order that a document can show: its number and the customer's id fit, and its times are
points in time. -/
structure Storable (o : Order) : Prop where
  number : o.number.Fits
  customer : o.customer.Fits
  placedAt : o.placedAt.isValid = true
  changedAt : o.changedAt.isValid = true

/-- The members of the document of an order. -/
def members (o : Order) : List (String × Json) :=
  [("orderNumber", .int o.number.value),
   ("customerId", .int o.customer.value),
   ("items", .list (o.items.map Item.document)),
   ("packedItems", .list (o.packed.map Item.document)),
   ("status", .text o.status.name),
   ("createdAt", .text o.placedAt.text),
   ("modifiedAt", .text o.changedAt.text)]

theorem document_eq (o : Order) : o.document = .record o.members := rfl

variable {o : Order}

theorem reads_lines (l : List Item) :
    Reader.list Item.reader (Json.list (l.map Item.document)).doc = .ok l :=
  Reader.list_map fun i _ => i.reader_document

theorem suits_members (h : o.Storable) : Reader.Suits fields o.members := by
  refine ⟨?_, of_decide_eq_true rfl, rfl⟩
  unfold members
  simp only [List.forall_mem_cons]
  exact ⟨⟨_, rfl, Reader.check_field (OrderNumber.reader_value h.number)⟩,
    ⟨_, rfl, Reader.check_field (CustomerId.reader_value h.customer)⟩,
    ⟨_, rfl, Reader.check_field (reads_lines o.items)⟩,
    ⟨_, rfl, Reader.check_fieldOr (reads_lines o.packed)⟩,
    ⟨_, rfl, Reader.check_field o.status.reader_name⟩,
    ⟨_, rfl, Reader.check_field (Timestamp.reader_text h.placedAt)⟩,
    ⟨_, rfl, Reader.check_field (Timestamp.reader_text h.changedAt)⟩, by simp⟩

theorem moderate_members (h : o.Storable) : (Json.record o.members).Moderate := by
  have hfits : ∀ {n : Int}, Text.fitsSigned 64 n = true → n.natAbs < 10 ^ 100 := by
    intro n hn
    simp only [Text.fitsSigned, Bool.and_eq_true, decide_eq_true_eq] at hn
    norm_num at hn ⊢
    omega
  have hlines : ∀ l : List Item, (Json.list (l.map Item.document)).Moderate := fun l =>
    Json.allModerate_map fun i _ => i.moderate_document
  exact ⟨hfits h.number, hfits h.customer, hlines _, hlines _, trivial, trivial, trivial, trivial⟩

/-- An order is read from a record with its members, of which the log may be missing if it is
empty. -/
theorem reader_record (h : o.Storable) {ms : List (String × Json)}
    (hsuits : Reader.Suits fields ms)
    (hothers : ∀ k, k ≠ "packedItems" → ms.lookup k = o.members.lookup k)
    (hpacked : ms.lookup "packedItems" = o.members.lookup "packedItems" ∨
      ms.lookup "packedItems" = none ∧ o.packed = []) :
    reader (Json.record ms).doc = .ok o := by
  obtain ⟨found, hfound, hlookup⟩ := hsuits.fields_record
  have hget : ∀ {α : Type} {k : String} {read : Reader α} {j : Json}, k ≠ "packedItems" →
      o.members.lookup k = some j → found.get k read = read j.doc := fun hk hj =>
    Reader.Found.get_of_lookup (by rw [hlookup, hothers _ hk, hj]; rfl)
  have hlog : ∃ log, found.get? "packedItems" (Reader.list Item.reader) = .ok log ∧
      log.getD [] = o.packed := by
    rcases hpacked with hp | ⟨hp, hempty⟩
    · refine ⟨some o.packed, ?_, rfl⟩
      rw [Reader.Found.get?_of_lookup (by rw [hlookup, hp]; rfl), reads_lines]
      rfl
    · exact ⟨none, Reader.Found.get?_of_missing (by rw [hlookup, hp]; rfl), hempty.symm⟩
  obtain ⟨log, hget?, hlog⟩ := hlog
  unfold reader
  rw [hfound]
  show (do
    let packed ← found.get? "packedItems" (Reader.list Item.reader)
    return ({
      number := ← found.get "orderNumber" OrderNumber.reader
      customer := ← found.get "customerId" CustomerId.reader
      items := ← found.get "items" (Reader.list Item.reader)
      packed := packed.getD []
      status := ← found.get "status" Status.reader
      placedAt := ← found.get "createdAt" Timestamp.reader
      changedAt := ← found.get "modifiedAt" Timestamp.reader } : Order)) = _
  rw [hget?, hget (by decide) rfl, hget (by decide) rfl, hget (by decide) rfl, hget (by decide) rfl,
    hget (by decide) rfl, hget (by decide) rfl, OrderNumber.reader_value h.number,
    CustomerId.reader_value h.customer, reads_lines, Status.reader_name,
    Timestamp.reader_text h.placedAt, Timestamp.reader_text h.changedAt]
  show Except.ok
    (Order.mk o.number o.customer o.items (log.getD []) o.status o.placedAt o.changedAt) = _
  rw [hlog]

/-- **An order is read back from its text**, and an order with an empty log also from the text
without the log. -/
theorem order_restored (h : o.Storable) : read o.write = .ok o ∧
    (o.packed = [] →
      Json.decodeText reader (o.document.without "packedItems").render = .ok o) := by
  have hsuits := suits_members h
  have hmoderate := moderate_members h
  constructor
  · unfold read write
    rw [document_eq, Json.decodeText_render reader hmoderate]
    exact reader_record h hsuits (fun _ _ => rfl) (.inl rfl)
  · intro hempty
    rw [document_eq, Json.decodeText_render reader (hmoderate.without "packedItems")]
    refine reader_record h (hsuits.without rfl) (fun k hk => ?_) (.inr ⟨?_, hempty⟩)
    · rw [Json.lookup_without, if_neg hk]
    · rw [Json.lookup_without, if_pos rfl]

/-- The smallest number and the largest id, a name of which nothing can be written as it is but the
last character, the first moment of the year 0 and the last nanosecond of the year 9999. -/
theorem order_restored_extremes : ∃ o : Order, o.number.value = -9223372036854775808 ∧
    o.customer.value = 9223372036854775807 ∧
    o.items = [⟨"\"\\\n\x01🍔", ⟨4294967295, by decide⟩⟩] ∧ o.packed = [] ∧
    o.placedAt.text = "0000-01-01T00:00:00Z" ∧
    o.changedAt.text = "9999-12-31T23:59:59.999999999Z" ∧ read o.write = .ok o ∧
    Json.decodeText reader (o.document.without "packedItems").render = .ok o := by
  have hback := order_restored (o := ⟨⟨-9223372036854775808⟩, ⟨9223372036854775807⟩,
    [⟨"\"\\\n\x01🍔", ⟨4294967295, by decide⟩⟩], [], .requested,
    ⟨0, 1, 1, 0, 0, 0, 0⟩, ⟨9999, 12, 31, 23, 59, 59, 999999999⟩⟩) ⟨by rfl, by rfl, by rfl, by rfl⟩
  exact ⟨_, rfl, rfl, rfl, rfl, by decide, by decide, hback.1, hback.2 rfl⟩

end Order

end Takeaway
