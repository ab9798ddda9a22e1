import LspServerTokio.Foundation.Occurrence
import LspServerTokio.Foundation.Text
import LspServerTokio.Message

namespace LspServerTokio

open Foundation Foundation.Text

abbrev Bytes := List UInt8

/-- `Vec<u8>`, whose length is a `usize`. -/
abbrev ByteVec := {bytes : Bytes // bytes.length < 2 ^ 64}

/-- The writer and the parser of serde_json. -/
structure SerdeJson where
  toVec : Json → Except SerdeError ByteVec
  fromSlice : Bytes → Except SerdeError Json

/-- The parser reads back what the writer wrote for `j`. -/
def SerdeJson.Inverse (serde : SerdeJson) (j : Json) : Prop :=
  ∃ json, serde.toVec j = .ok json ∧ serde.fromSlice json.val = .ok j

inductive ErrorSource
  | utf8
  | parseInt (kind : IntErrorKind)
  | text (message : String)
  | serdeJson (e : SerdeError)
  deriving DecidableEq

/-- `io::Error`: the kinds that the crate raises itself, and what the transport reports. -/
inductive IoError
  | invalidData (source : ErrorSource)
  | brokenPipe (message : String)
  | other (message : String)
  | os (code : I32)
  deriving DecidableEq

/-- The places where slicing stops the program. -/
inductive Panic
  | sliceEnd
  | advance
  | splitTo
  | strSlice
  deriving DecidableEq

def sliceTo (src : Bytes) (n : ℕ) : Except Panic Bytes :=
  if n ≤ src.length then .ok (src.take n) else .error .sliceEnd

def advance (src : Bytes) (n : ℕ) : Except Panic Bytes :=
  if n ≤ src.length then .ok (src.drop n) else .error .advance

def splitTo (src : Bytes) (n : ℕ) : Except Panic (Bytes × Bytes) :=
  if n ≤ src.length then .ok (src.take n, src.drop n) else .error .splitTo

def headerTerminator : Bytes := utf8Bytes "\r\n\r\n".toList

def findSubsequence (haystack needle : Bytes) : Option ℕ :=
  (Occurrence.windows needle.length haystack).findIdx? (· = needle)

def headerName : List Char := "content-length:".toList

def parseLines : List (List Char) → Except Panic (Except IoError ℕ)
  | [] => .ok (.error (.invalidData (.text "Missing Content-Length header")))
  | line :: lines =>
    if headerName <+: line.map Char.toLower then
      match sliceFrom headerName.length line with
      | none => .error .strSlice
      | some value =>
        match parseUnsigned (2 ^ 64 - 1) (trim value) with
        | .ok n => .ok (.ok n)
        | .error kind => .ok (.error (.invalidData (.parseInt kind)))
    else parseLines lines

def parseContentLength (headers : Bytes) : Except Panic (Except IoError ℕ) :=
  match fromUtf8 headers with
  | none => .ok (.error (.invalidData .utf8))
  | some headersStr => parseLines (splitPair '\r' '\n' headersStr)

structure LspCodec where
  contentLength : Option ℕ
  deriving DecidableEq

namespace LspCodec

def new : LspCodec := ⟨none⟩

variable (serde : SerdeJson)

def parseBody (body : Bytes) : Except IoError Message :=
  match serde.fromSlice body >>= Message.deserialize with
  | .ok message => .ok message
  | .error e => .error (.invalidData (.serdeJson e))

/-- The second half of `decode`, where the length is known. -/
def decodeBody (codec : LspCodec) (src : Bytes) :
    Except Panic (Except IoError (Option Message) × LspCodec × Bytes) :=
  match codec.contentLength with
  | none => .ok (.error (.invalidData (.text ("missing Content-Length state: expected parsed " ++
      "headers before body, received empty decoder state"))), codec, src)
  | some contentLength =>
    if src.length < contentLength then .ok (.ok none, codec, src)
    else do
      let (body, src) ← splitTo src contentLength
      return ((parseBody serde body).map some, ⟨none⟩, src)

/-- The result of a call, and the codec and the buffer that it leaves behind. -/
def decode (codec : LspCodec) (src : Bytes) :
    Except Panic (Except IoError (Option Message) × LspCodec × Bytes) :=
  match codec.contentLength with
  | some _ => decodeBody serde codec src
  | none =>
    match findSubsequence src headerTerminator with
    | none => .ok (.ok none, codec, src)
    | some headerEnd => do
      let headers ← sliceTo src headerEnd
      match ← parseContentLength headers with
      | .error e => return (.error e, codec, src)
      | .ok contentLength =>
        let src ← advance src (headerEnd + headerTerminator.length)
        decodeBody serde ⟨some contentLength⟩ src

def header (length : ℕ) : Bytes :=
  utf8Bytes ("Content-Length: ".toList ++ Nat.toDigits 10 length ++ "\r\n\r\n".toList)

def encode (item : Message) (dst : Bytes) : Except IoError Unit × Bytes :=
  match serde.toVec item.serialize with
  | .error e => (.error (.invalidData (.serdeJson e)), dst)
  | .ok json => (.ok (), dst ++ header json.val.length ++ json.val)

end LspCodec

section HeaderLine

theorem findSubsequence_eq_some {src : Bytes} {i : ℕ} :
    findSubsequence src headerTerminator = some i ↔ Occurrence.First headerTerminator src i :=
  Occurrence.findIdx?_windows_eq_some_iff (by decide)

theorem findSubsequence_eq_none {src : Bytes} :
    findSubsequence src headerTerminator = none ↔ ∀ i, ¬ headerTerminator <+: src.drop i :=
  Occurrence.findIdx?_windows_eq_none_iff (by decide)

theorem length_headerTerminator : headerTerminator.length = 4 := by decide

theorem sliceFrom_headerName {line : List Char} (h : headerName <+: line.map Char.toLower) :
    sliceFrom headerName.length line = some (line.drop headerName.length) := by
  have hlen := h.length_le
  rw [List.length_map] at hlen
  refine sliceFrom_of_ascii hlen fun c hc ↦ utf8Size_of_toLower ?_
  have hname : headerName.all (fun d ↦ d.val.toNat < 128) = true := rfl
  rw [List.prefix_iff_eq_take, ← List.map_take] at h
  simpa using List.all_eq_true.mp hname _ (h ▸ List.mem_map_of_mem hc)

theorem parseLines_ne_error (lines : List (List Char)) (p : Panic) : parseLines lines ≠ .error p := by
  induction lines with
  | nil => exact nofun
  | cons line lines ih =>
    unfold parseLines
    split_ifs with h
    · rw [sliceFrom_headerName h]
      dsimp only
      split <;> exact nofun
    · exact ih

theorem parseContentLength_ne_error (headers : Bytes) (p : Panic) :
    parseContentLength headers ≠ .error p := by
  unfold parseContentLength
  split
  · exact nofun
  · exact parseLines_ne_error _ p

def missingContentLength : IoError := .invalidData (.text "Missing Content-Length header")

/-- The errors that a header can give. -/
inductive HeaderError : IoError → Prop
  | utf8 : HeaderError (.invalidData .utf8)
  | missing : HeaderError missingContentLength
  | parseInt (kind : IntErrorKind) : HeaderError (.invalidData (.parseInt kind))

theorem parseLines_error {lines : List (List Char)} {e : IoError}
    (h : parseLines lines = .ok (.error e)) : HeaderError e := by
  induction lines with
  | nil =>
    cases h
    exact .missing
  | cons line lines ih =>
    unfold parseLines at h
    split_ifs at h with hname
    · rw [sliceFrom_headerName hname] at h
      dsimp only at h
      split at h
      · exact nomatch h
      · cases h
        exact .parseInt _
    · exact ih h

theorem parseContentLength_error {headers : Bytes} {e : IoError}
    (h : parseContentLength headers = .ok (.error e)) : HeaderError e := by
  unfold parseContentLength at h
  split at h
  · cases h
    exact .utf8
  · exact parseLines_error h

theorem header_cases (src : Bytes) :
    findSubsequence src headerTerminator = none ∨
    ∃ i, findSubsequence src headerTerminator = some i ∧
      ((∃ e, parseContentLength (src.take i) = .ok (.error e)) ∨
        ∃ n, parseContentLength (src.take i) = .ok (.ok n)) := by
  rcases hi : findSubsequence src headerTerminator with _ | i
  · exact .inl rfl
  · refine .inr ⟨i, rfl, ?_⟩
    rcases hp : parseContentLength (src.take i) with p | e | n
    · exact absurd hp (parseContentLength_ne_error _ p)
    · exact .inl ⟨e, rfl⟩
    · exact .inr ⟨n, rfl⟩

end HeaderLine

namespace LspCodec

section Decode

variable (serde : SerdeJson) {src : Bytes} {i n : ℕ}

theorem terminator_le (hi : findSubsequence src headerTerminator = some i) : i + 4 ≤ src.length := by
  rw [← length_headerTerminator]
  exact Occurrence.length_le (by decide) (findSubsequence_eq_some.mp hi).here

theorem decode_of_no_terminator (hi : findSubsequence src headerTerminator = none) :
    decode serde ⟨none⟩ src = .ok (.ok none, ⟨none⟩, src) := by
  simp only [decode, hi]

theorem sliceTo_terminator (hi : findSubsequence src headerTerminator = some i) :
    sliceTo src i = .ok (src.take i) :=
  if_pos (by have := terminator_le hi; omega)

theorem decode_header_error (hi : findSubsequence src headerTerminator = some i) {e : IoError}
    (he : parseContentLength (src.take i) = .ok (.error e)) :
    decode serde ⟨none⟩ src = .ok (.error e, ⟨none⟩, src) := by
  simp only [decode, hi, sliceTo_terminator hi, bind, Except.bind, he]
  rfl

/-- A complete header is consumed, whether or not the body is there. -/
theorem decode_header (hi : findSubsequence src headerTerminator = some i)
    (hn : parseContentLength (src.take i) = .ok (.ok n)) :
    decode serde ⟨none⟩ src = decode serde ⟨some n⟩ (src.drop (i + 4)) := by
  have hadvance : advance src (i + 4) = .ok (src.drop (i + 4)) := if_pos (terminator_le hi)
  simp only [decode, hi, sliceTo_terminator hi, bind, Except.bind, hn, length_headerTerminator,
    hadvance]

theorem decode_of_short (h : src.length < n) :
    decode serde ⟨some n⟩ src = .ok (.ok none, ⟨some n⟩, src) := by
  simp only [decode, decodeBody, if_pos h]

/-- A complete body is consumed and the length forgotten, whether or not it is a message. -/
theorem decode_body (h : n ≤ src.length) :
    decode serde ⟨some n⟩ src = .ok ((parseBody serde (src.take n)).map some, ⟨none⟩, src.drop n) := by
  simp only [decode, decodeBody, if_neg h.not_gt, splitTo, if_pos h]
  rfl

end Decode

end LspCodec

end LspServerTokio
