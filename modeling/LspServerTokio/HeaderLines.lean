import LspServerTokio.Codec

namespace LspServerTokio

open Foundation Foundation.Text

/-- The lines of a header, with a line break between each two of them. -/
def headerBlock (lines : List (List Char)) : List Char := "\r\n".toList.intercalate lines

/-- A header line that says nothing about the length. A line feed alone does not end a line. -/
structure OtherLine (line : List Char) : Prop where
  ne_nil : line ≠ []
  cr_not_mem : '\r' ∉ line
  name : ¬ headerName <+: line.map Char.toLower

/-- A `Content-Length` line, with its name in any case and spaces or tabs around the number. -/
inductive LengthLine (length : ℕ) : List Char → Prop
  | mk {name left right : List Char} : name.map Char.toLower = headerName →
      (∀ c ∈ left, c = ' ' ∨ c = '\t') → (∀ c ∈ right, c = ' ' ∨ c = '\t') →
      LengthLine length (name ++ (left ++ Nat.toDigits 10 length ++ right))

section Block

variable {lines : List (List Char)}

theorem utf8Bytes_headerBlock (lines : List (List Char)) :
    utf8Bytes (headerBlock lines) = [13, 10].intercalate (lines.map utf8Bytes) :=
  utf8Bytes_intercalate _ lines

theorem cr_not_mem_utf8Bytes {line : List Char} (h : '\r' ∉ line) : 13 ∉ utf8Bytes line := by
  intro hm
  obtain ⟨c, hc, he⟩ := mem_utf8Bytes (by decide) hm
  have hcr : c = '\r' := Char.ext (UInt32.toNat_inj.mp he)
  exact h (hcr ▸ hc)

/-- The terminator behind a block is not found before the end of the block. -/
theorem findSubsequence_block (hne : ∀ line ∈ lines, line ≠ []) (hcr : ∀ line ∈ lines, '\r' ∉ line)
    (rest : Bytes) :
    findSubsequence (utf8Bytes (headerBlock lines) ++ headerTerminator ++ rest) headerTerminator =
      some (utf8Bytes (headerBlock lines)).length := by
  have hterminator : headerTerminator = [13, 10, 13, 10] := by decide
  rw [findSubsequence_eq_some, utf8Bytes_headerBlock, hterminator]
  refine Occurrence.first_of_lines (by decide) ?_ ?_ rest
  · simpa [utf8Bytes_eq_nil] using hne
  · simpa using fun line hl ↦ cr_not_mem_utf8Bytes (hcr line hl)

theorem parseContentLength_block (hlines : lines ≠ []) (hcr : ∀ line ∈ lines, '\r' ∉ line) :
    parseContentLength (utf8Bytes (headerBlock lines)) = parseLines lines := by
  have hsplit : splitPair '\r' '\n' (headerBlock lines) = lines := splitPair_intercalate hlines hcr
  rw [parseContentLength, fromUtf8_utf8Bytes]
  simp only [hsplit]

theorem parseLines_append {before : List (List Char)}
    (h : ∀ line ∈ before, ¬ headerName <+: line.map Char.toLower) (lines : List (List Char)) :
    parseLines (before ++ lines) = parseLines lines := by
  induction before with
  | nil => rfl
  | cons line before ih =>
    rw [List.cons_append, parseLines, if_neg (h line List.mem_cons_self)]
    exact ih fun l hl ↦ h l (List.mem_cons_of_mem _ hl)

end Block

namespace LengthLine

variable {length : ℕ} {line : List Char}

theorem cr_not_mem (h : LengthLine length line) : '\r' ∉ line := by
  obtain ⟨hname, hl, hr⟩ := h
  simp only [List.mem_append, not_or]
  refine ⟨fun h ↦ ?_, ⟨fun h ↦ ?_, fun h ↦ ?_⟩, fun h ↦ ?_⟩
  · have hm : Char.toLower '\r' ∈ headerName := hname ▸ List.mem_map_of_mem h
    revert hm
    decide
  · exact absurd (hl _ h) (by decide)
  · exact absurd (Nat.isDigit_of_mem_toDigits (by decide) le_rfl h) (by decide)
  · exact absurd (hr _ h) (by decide)

theorem hasName (h : LengthLine length line) : headerName <+: line.map Char.toLower := by
  obtain ⟨hname, -, -⟩ := h
  rw [List.map_append, hname]
  exact List.prefix_append _ _

theorem ne_nil (h : LengthLine length line) : line ≠ [] := by
  rintro rfl
  exact absurd h.hasName (by decide)

theorem trim_value (h : LengthLine length line) :
    trim (line.drop headerName.length) = Nat.toDigits 10 length := by
  obtain ⟨hname, hl, hr⟩ := h
  have hblank : ∀ c, c = ' ' ∨ c = '\t' → isWhitespace c = true := by
    rintro c (rfl | rfl) <;> decide
  rw [← hname, List.length_map, List.drop_left]
  refine trim_append (fun c hc ↦ hblank c (hl c hc)) (fun c hc ↦ ?_) (fun c hc ↦ hblank c (hr c hc))
    Nat.toDigits_ne_nil
  exact isWhitespace_of_isDigit (Nat.isDigit_of_mem_toDigits (by decide) le_rfl hc)

theorem parse (h : LengthLine length line) (hlength : length < 2 ^ 64) (lines : List (List Char)) :
    parseLines (line :: lines) = .ok (.ok length) := by
  have hparse : parseUnsigned (2 ^ 64 - 1) (Nat.toDigits 10 length) = .ok length :=
    parseUnsigned_toDigits (by omega)
  simp only [parseLines, if_pos h.hasName, sliceFrom_headerName h.hasName, h.trim_value, hparse]

end LengthLine

end LspServerTokio
