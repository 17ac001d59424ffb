import Takeaway.Json.Decode
import Takeaway.Proofs.Json.Token
import Takeaway.Proofs.Text.Utf8

/-!
Written values are read back. Main statement: a reader that is given the bytes of a written value
sees exactly the document of that value, with nothing behind it.
-/

namespace Takeaway.Json

open Takeaway.Text

namespace Doc

/-- How reading goes on behind a token. -/
def State.resume (r : List Token) : State → Doc × Bool
  | .within stack want => build stack want r
  | .complete d => (d, r.isEmpty)
  | .lost d => (d, true)

theorem build_cons (stack : List Frame) (want : Want) (t : Token) (r : List Token) :
    build stack want (t :: r) = (step stack want t).resume r := by
  rw [build]
  cases step stack want t with
  | within stack want => rfl
  | complete d => rfl
  | lost d => rfl

/-- A value may stand here. -/
def Want.IsValue (w : Want) : Prop := w = .value ∨ w = .item

/-- A key may stand here. -/
def Want.IsKey (w : Want) : Prop := w = .key ∨ w = .member

theorem step_value {want : Want} (h : want.IsValue) (stack : List Frame) {t : Token}
    (ht : t ≠ .listClose) : step stack want t = onValue stack t := by
  rcases h with rfl | rfl
  · rfl
  · exact if_neg ht

theorem step_key {want : Want} (h : want.IsKey) (stack : List Frame) (k : Option String) :
    step stack want (.text k) = onKey stack (.text k) := by
  rcases h with rfl | rfl
  · rfl
  · rfl

variable {stack : List Frame} {want : Want} {r : List Token}

/-- What a key and its colon do. -/
theorem build_key (h : want.IsKey) (ms : List (Option String × Doc)) (k : String) :
    build (.record ms none :: stack) want (.text (some k) :: .colon :: r) =
      build (.record ms (some (some k)) :: stack) .value r := by
  rw [build_cons, step_key h]
  show build (.record ms (some (some k)) :: stack) .colon (.colon :: r) = _
  rw [build_cons]
  rfl

mutual

/-- **The tokens of a value make its document**, whatever is around it. -/
theorem build_tokensOf : (j : Json) → (stack : List Frame) → (want : Want) → (r : List Token) →
    want.IsValue → build stack want (tokensOf j ++ r) = (settle (doc j) stack).resume r
  | .null, stack, want, r, h => by
    show build stack want (.null :: r) = _
    rw [build_cons, step_value h _ (by simp)]
    rfl
  | .bool b, stack, want, r, h => by
    show build stack want (.bool b :: r) = _
    rw [build_cons, step_value h _ (by simp)]
    rfl
  | .int n, stack, want, r, h => by
    show build stack want (.number (.whole n) :: r) = _
    rw [build_cons, step_value h _ (by simp)]
    rfl
  | .text s, stack, want, r, h => by
    show build stack want (.text (some s) :: r) = _
    rw [build_cons, step_value h _ (by simp)]
    rfl
  | .list xs, stack, want, r, h => by
    have hsplit : tokensOf (.list xs) ++ r = .listOpen :: (itemTokens xs ++ .listClose :: r) := by
      simp [tokensOf]
    rw [hsplit, build_cons, step_value h _ (by simp)]
    by_cases hxs : xs = []
    · rw [hxs]
      show build (.list [] :: stack) .item (.listClose :: r) = _
      rw [build_cons]
      rfl
    · exact build_itemTokens xs [] stack .item r (.inr rfl) hxs
  | .record fs, stack, want, r, h => by
    have hsplit : tokensOf (.record fs) ++ r =
        .recordOpen :: (fieldTokens fs ++ .recordClose :: r) := by simp [tokensOf]
    rw [hsplit, build_cons, step_value h _ (by simp)]
    by_cases hfs : fs = []
    · rw [hfs]
      show build (.record [] none :: stack) .member (.recordClose :: r) = _
      rw [build_cons]
      rfl
    · exact build_fieldTokens fs [] stack .member r (.inr rfl) hfs

theorem build_itemTokens : (xs : List Json) → (ds : List Doc) → (stack : List Frame) →
    (want : Want) → (r : List Token) → want.IsValue → xs ≠ [] →
    build (.list ds :: stack) want (itemTokens xs ++ .listClose :: r) =
      (settle (.list (ds.reverse ++ docs xs) true) stack).resume r
  | [], _, _, _, _, _, hne => absurd rfl hne
  | [x], ds, stack, want, r, h, _ => by
    show build _ _ (tokensOf x ++ .listClose :: r) = _
    rw [build_tokensOf x _ _ _ h]
    show build (.list (doc x :: ds) :: stack) .comma (.listClose :: r) = _
    rw [build_cons]
    show (settle (.list (doc x :: ds).reverse true) stack).resume r = _
    rw [List.reverse_cons]
    rfl
  | x :: y :: xs, ds, stack, want, r, h, _ => by
    have hsplit : itemTokens (x :: y :: xs) ++ Token.listClose :: r =
        tokensOf x ++ .comma :: (itemTokens (y :: xs) ++ .listClose :: r) := by simp [itemTokens]
    rw [hsplit, build_tokensOf x _ _ _ h]
    show build (.list (doc x :: ds) :: stack) .comma (.comma :: _) = _
    rw [build_cons]
    show build (.list (doc x :: ds) :: stack) .value _ = _
    rw [build_itemTokens (y :: xs) _ _ _ _ (.inl rfl) (by simp), List.reverse_cons,
      List.append_assoc]
    rfl

theorem build_fieldTokens : (fs : List (String × Json)) → (ms : List (Option String × Doc)) →
    (stack : List Frame) → (want : Want) → (r : List Token) → want.IsKey → fs ≠ [] →
    build (.record ms none :: stack) want (fieldTokens fs ++ .recordClose :: r) =
      (settle (.record (ms.reverse ++ members fs) true) stack).resume r
  | [], _, _, _, _, _, hne => absurd rfl hne
  | [(k, x)], ms, stack, want, r, h, _ => by
    have hsplit : fieldTokens [(k, x)] ++ Token.recordClose :: r =
        .text (some k) :: .colon :: (tokensOf x ++ .recordClose :: r) := by simp [fieldTokens]
    rw [hsplit, build_key h, build_tokensOf x _ _ _ (.inl rfl)]
    show build (.record ((some k, doc x) :: ms) none :: stack) .comma (.recordClose :: r) = _
    rw [build_cons]
    show (settle (.record ((some k, doc x) :: ms).reverse true) stack).resume r = _
    rw [List.reverse_cons]
    rfl
  | (k, x) :: f :: fs, ms, stack, want, r, h, _ => by
    have hsplit : fieldTokens ((k, x) :: f :: fs) ++ Token.recordClose :: r =
        .text (some k) :: .colon ::
          (tokensOf x ++ .comma :: (fieldTokens (f :: fs) ++ .recordClose :: r)) := by
      simp [fieldTokens]
    rw [hsplit, build_key h, build_tokensOf x _ _ _ (.inl rfl)]
    show build (.record ((some k, doc x) :: ms) none :: stack) .comma (.comma :: _) = _
    rw [build_cons]
    show build (.record ((some k, doc x) :: ms) none :: stack) .key _ = _
    rw [build_fieldTokens (f :: fs) _ _ _ _ (.inl rfl) (by simp), List.reverse_cons,
      List.append_assoc]
    rfl

end

/-- The text of a written value is its document, with nothing behind it. -/
theorem ofGlyphs_chars {j : Json} (h : j.Moderate) :
    ofGlyphs (j.chars.map .char) = (j.doc, true) := by
  have hscan := Scan.run_chars j [] h (fun c t heq => nomatch heq)
  rw [List.append_nil] at hscan
  unfold ofGlyphs tokens
  rw [hscan]
  exact build_tokensOf j [] .value [] (.inl rfl)

end Doc

/-- **Reading what was written of a value** is reading its document. -/
theorem decode_chars {α : Type} (read : Reader α) {j : Json} (h : j.Moderate) :
    decode read (j.chars.map .char) = read j.doc := by
  unfold decode
  rw [Doc.ofGlyphs_chars h]
  show (do let a ← read j.doc; if true then Except.ok a else .error .malformed) = _
  cases read j.doc with
  | error e => rfl
  | ok a => rfl

theorem decodeBytes_chars {α : Type} (read : Reader α) {j : Json} (h : j.Moderate) :
    decodeBytes read (toBytes j.chars) = read j.doc := by
  unfold decodeBytes
  rw [glyphs_toBytes, decode_chars read h]

theorem decodeText_render {α : Type} (read : Reader α) {j : Json} (h : j.Moderate) :
    decodeText read j.render = read j.doc := by
  unfold decodeText render
  rw [String.toList_ofList, decode_chars read h]

end Takeaway.Json
