import LspServerTokio.CodecStream

namespace LspServerTokio.LspCodec

open Foundation Foundation.Text

variable (serde : SerdeJson)

theorem parseContentLength_others {lines : List (List Char)} (h : ∀ line ∈ lines, OtherLine line) :
    parseContentLength (utf8Bytes (headerBlock lines)) = .ok (.error missingContentLength) := by
  rcases lines.eq_nil_or_concat' with rfl | ⟨before, last, rfl⟩
  · -- an empty header still has one line, which is empty
    decide
  · rw [parseContentLength_block (by simp) fun line hl ↦ (h line hl).cr_not_mem,
      ← List.append_nil (before ++ [last]), parseLines_append fun line hl ↦ (h line hl).name]
    rfl

theorem decode_others {lines : List (List Char)} (h : ∀ line ∈ lines, OtherLine line)
    (rest : Bytes) :
    decode serde new (utf8Bytes (headerBlock lines) ++ headerTerminator ++ rest) =
      .ok (.error missingContentLength, new,
        utf8Bytes (headerBlock lines) ++ headerTerminator ++ rest) := by
  refine decode_header_error serde (findSubsequence_block (fun line hl ↦ (h line hl).ne_nil)
    (fun line hl ↦ (h line hl).cr_not_mem) rest) ?_
  rw [List.append_assoc, List.take_left, parseContentLength_others h]

theorem decode_block (body : ByteVec) {before after : List (List Char)} {line : List Char}
    (hbefore : ∀ l ∈ before, OtherLine l) (hafter : ∀ l ∈ after, OtherLine l)
    (hline : LengthLine body.val.length line) (rest : Bytes) :
    decode serde new
        (utf8Bytes (headerBlock (before ++ line :: after)) ++ headerTerminator ++ (body.val ++ rest)) =
      .ok ((parseBody serde body.val).map some, new, rest) := by
  have hlines : ∀ l ∈ before ++ line :: after, l ≠ [] ∧ '\r' ∉ l := by
    intro l hl
    rcases List.mem_append.mp hl with hl | hl
    · exact ⟨(hbefore l hl).ne_nil, (hbefore l hl).cr_not_mem⟩
    · rcases List.mem_cons.mp hl with rfl | hl
      · exact ⟨hline.ne_nil, hline.cr_not_mem⟩
      · exact ⟨(hafter l hl).ne_nil, (hafter l hl).cr_not_mem⟩
  refine (headerRead_block (by simp) (fun l hl ↦ (hlines l hl).1) (fun l hl ↦ (hlines l hl).2) ?_
    _).decode_body serde
  rw [parseLines_append fun l hl ↦ (hbefore l hl).name]
  exact hline.parse body.property after

/-- A frame is read in the same way whatever other lines its header has, and however the line with
the length is spelt. Without such a line it is refused, and nothing is consumed. -/
theorem decode_lenient (body : ByteVec) (rest : Bytes) :
    (∀ before line after, (∀ l ∈ before, OtherLine l) → (∀ l ∈ after, OtherLine l) →
      LengthLine body.val.length line →
      decode serde new (utf8Bytes (headerBlock (before ++ line :: after)) ++ headerTerminator ++
        (body.val ++ rest)) = decode serde new (frame body ++ rest)) ∧
    ∀ lines, (∀ l ∈ lines, OtherLine l) →
      decode serde new (utf8Bytes (headerBlock lines) ++ headerTerminator ++ (body.val ++ rest)) =
        .ok (.error missingContentLength, new,
          utf8Bytes (headerBlock lines) ++ headerTerminator ++ (body.val ++ rest)) := by
  refine ⟨fun before line after hbefore hafter hline ↦ ?_, fun lines h ↦ decode_others serde h _⟩
  rw [decode_frame, decode_block serde body hbefore hafter hline]

/-- A foreign line whose text is not ASCII, and another order of the two lines. -/
theorem decode_lenient_not_ascii :
    decode shutdownSerde new (utf8Bytes (headerBlock (["X-\u00e9: \u4e2d".toList] ++
        ("CONTENT-length:".toList ++ (['\t'] ++ Nat.toDigits 10 33 ++ [' '])) :: [])) ++
        headerTerminator ++ (exitText ++ [67])) =
      decode shutdownSerde new (frame ⟨exitText, by decide⟩ ++ [67]) :=
  (decode_lenient shutdownSerde ⟨exitText, by decide⟩ [67]).1 _ _ _
    (by simp only [List.forall_mem_singleton]; exact ⟨by decide, by decide, by decide⟩) (by simp)
    (.mk (by decide) (by simp) (by simp))

end LspServerTokio.LspCodec
