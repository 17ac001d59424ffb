import Takeaway.Message.Payload
import Takeaway.Proofs.Index
import Takeaway.Proofs.Order.Document

/-!
Envelopes are read back from their documents. Main statement: the text of an envelope is read as
that envelope, whatever its key, its headers and its payload are, so it is understood in the same
way after it was read as before it was written.
-/

namespace Takeaway

open Json (Reader)

namespace Envelope

theorem byte_byteDocument (b : UInt8) : Reader.byte (byteDocument b).doc = .ok b := by
  have hlt : b.toNat < 256 := b.toNat_lt
  have hread : Reader.whole (fun n => decide (0 ≤ n) && decide (n < 256)) (Json.int b.toNat).doc =
      .ok (b.toNat : Int) := Reader.whole_int (by simp; omega)
  unfold Reader.byte byteDocument
  rw [hread]
  show Except.ok (UInt8.ofNat (b.toNat : Int).toNat) = _
  rw [Int.toNat_natCast, UInt8.ofNat_toNat]

/-- A key, or its absence, as a document. -/
def keyDocument : Option String → Json
  | some k => .text k
  | none => .null

theorem optional_keyDocument (key : Option String) :
    Reader.optional Reader.text (keyDocument key).doc = .ok key := by
  cases key with
  | none => rfl
  | some k => rfl

/-- The members of the document of an envelope. -/
def members (e : Envelope) : List (String × Json) :=
  [("key", keyDocument e.key),
   ("headers", .record (e.headers.entries.map fun h => (h.1, .text h.2))),
   ("payload", .list (e.payload.map byteDocument)),
   ("timestamp", .text e.time.text)]

theorem document_eq (e : Envelope) : e.document = .record e.members := rfl

variable {e : Envelope}

theorem suits_members (h : e.time.isValid = true) : Reader.Suits fields e.members := by
  refine ⟨?_, of_decide_eq_true rfl, rfl⟩
  unfold members
  simp only [List.forall_mem_cons]
  exact ⟨⟨_, rfl, Reader.check_fieldOr (optional_keyDocument e.key)⟩,
    ⟨_, rfl, Reader.check_field (Reader.texts_map e.headers.entries)⟩,
    ⟨_, rfl, Reader.check_field (Reader.list_map fun b _ => byte_byteDocument b)⟩,
    ⟨_, rfl, Reader.check_field (Timestamp.reader_text h)⟩, by simp⟩

theorem moderate_document (e : Envelope) : e.document.Moderate := by
  have hkey : (keyDocument e.key).Moderate := by
    cases e.key <;> trivial
  have hheaders : (Json.record (e.headers.entries.map fun h => (h.1, .text h.2))).Moderate := by
    refine Json.allFieldsModerate_iff.2 fun m hm => ?_
    obtain ⟨h, -, rfl⟩ := List.mem_map.1 hm
    trivial
  have hpayload : (Json.list (e.payload.map byteDocument)).Moderate :=
    Json.allModerate_map fun b _ => lt_of_lt_of_le b.toNat_lt (by norm_num)
  exact ⟨hkey, hheaders, hpayload, trivial, trivial⟩

theorem reader_document (h : e.time.isValid = true) : reader e.document.doc = .ok e := by
  obtain ⟨found, hfound, hlookup⟩ := (suits_members h).fields_record
  have hget : ∀ {α : Type} {k : String} {read : Reader α} {j : Json},
      e.members.lookup k = some j → found.get k read = read j.doc := fun hj =>
    Reader.Found.get_of_lookup (by rw [hlookup, hj]; rfl)
  have hkey : found.get? "key" (Reader.optional Reader.text) = .ok (some e.key) := by
    rw [Reader.Found.get?_of_lookup (by rw [hlookup]; rfl), optional_keyDocument]
    rfl
  unfold reader
  rw [document_eq, hfound]
  show (do
    let key ← found.get? "key" (Reader.optional Reader.text)
    return ({
      key := key.join
      headers := Index.ofList (← found.get "headers" Reader.texts)
      payload := ← found.get "payload" (Reader.list Reader.byte)
      time := ← found.get "timestamp" Timestamp.reader } : Envelope)) = _
  rw [hkey, hget rfl, hget rfl, hget rfl, Reader.texts_map,
    Reader.list_map fun b _ => byte_byteDocument b, Timestamp.reader_text h]
  show Except.ok (Envelope.mk e.key (Index.ofList e.headers.entries) e.payload e.time) = _
  rw [Index.ofList_entries]

/-- **An envelope is read back from its text**, and what it tells is what it told before: the event,
the order number and what anybody reads in the payload, or the failure to read it. -/
theorem envelope_restored (h : e.time.isValid = true) : read e.write = .ok e ∧
    (read e.write).map event = .ok e.event ∧ (read e.write).map orderNumber = .ok e.orderNumber ∧
    ∀ (α : Type) (r : Reader α), ((read e.write).map fun e => e.decode r) = .ok (e.decode r) := by
  have hread : read e.write = .ok e := by
    unfold read write
    rw [Json.decodeText_render reader e.moderate_document, reader_document h]
  rw [hread]
  exact ⟨rfl, rfl, rfl, fun _ _ => rfl⟩

/-- An envelope with an empty key, headers in need of escapes and a payload that is no text. -/
theorem envelope_restored_odd : ∃ e : Envelope, e.key = some "" ∧
    e.headers.entries = [("", "\n"), ("event", "\"ready\"")] ∧ e.payload = [0, 34, 255] ∧
    e.time.text = "2024-02-29T23:59:59.000001Z" ∧ read e.write = .ok e ∧
    (read e.write).map event = .ok (.error (.unknownEvent "\"ready\"")) ∧
    (read e.write).map orderNumber = .ok (.error (.missingHeader "order")) := by
  have hback := envelope_restored (e := ⟨some "", ⟨[("", "\n"), ("event", "\"ready\"")], by decide⟩,
    [0, 34, 255], ⟨2024, 2, 29, 23, 59, 59, 1000⟩⟩) (by rfl)
  exact ⟨_, rfl, rfl, rfl, by decide, hback.1, hback.2.1, hback.2.2.1⟩

end Envelope

end Takeaway
