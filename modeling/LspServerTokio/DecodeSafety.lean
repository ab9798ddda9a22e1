import LspServerTokio.Codec

namespace LspServerTokio.LspCodec

open Foundation Foundation.Text

variable (serde : SerdeJson) {src : Bytes}

def missingLengthState : IoError :=
  .invalidData (.text ("missing Content-Length state: expected parsed " ++
    "headers before body, received empty decoder state"))

/-- The buffer begins with a complete header: the bytes before the first terminator. -/
structure HeaderAt (src headers rest : Bytes) : Prop where
  eq : src = headers ++ headerTerminator ++ rest
  first : findSubsequence src headerTerminator = some headers.length

/-- The ways a call can end, with what it takes off the front of the buffer. -/
inductive Consumed (codec : LspCodec) (src : Bytes) :
    Except IoError (Option Message) → LspCodec → Bytes → Prop
  | headerIncomplete : codec = ⟨none⟩ → findSubsequence src headerTerminator = none →
      Consumed codec src (.ok none) codec src
  | headerError {headers rest : Bytes} {e : IoError} : codec = ⟨none⟩ → HeaderAt src headers rest →
      parseContentLength headers = .ok (.error e) → Consumed codec src (.error e) codec src
  | bodyIncomplete {n : ℕ} : codec = ⟨some n⟩ → src.length < n → Consumed codec src (.ok none) codec src
  | header {headers rest : Bytes} {n : ℕ} : codec = ⟨none⟩ → HeaderAt src headers rest →
      parseContentLength headers = .ok (.ok n) → rest.length < n →
      Consumed codec src (.ok none) ⟨some n⟩ rest
  | body {body rest : Bytes} : codec = ⟨some body.length⟩ → src = body ++ rest →
      Consumed codec src ((parseBody serde body).map some) ⟨none⟩ rest
  | headerAndBody {headers body rest : Bytes} : codec = ⟨none⟩ → HeaderAt src headers (body ++ rest) →
      parseContentLength headers = .ok (.ok body.length) →
      Consumed codec src ((parseBody serde body).map some) ⟨none⟩ rest

theorem headerAt_of_first {i : ℕ} (hi : findSubsequence src headerTerminator = some i) :
    HeaderAt src (src.take i) (src.drop (i + 4)) := by
  have hle := terminator_le hi
  constructor
  · obtain ⟨rest, hrest⟩ := (findSubsequence_eq_some.mp hi).here
    have hdrop : src.drop (i + 4) = rest := by
      rw [← List.drop_drop, ← hrest, ← length_headerTerminator, List.drop_left]
    rw [hdrop, List.append_assoc, hrest, List.take_append_drop]
  · rw [List.length_take, Nat.min_eq_left (by omega), hi]

theorem parseBody_ne_missing (body : Bytes) :
    (parseBody serde body).map some ≠ .error missingLengthState := by
  unfold parseBody
  split
  · simp [Except.map]
  · simp [Except.map, missingLengthState]

theorem headerError_ne_missing {e : IoError} (h : HeaderError e) : e ≠ missingLengthState := by
  cases h <;> simp [missingLengthState, missingContentLength]

theorem Consumed.ne_missing {codec codec' : LspCodec} {src' : Bytes}
    {result : Except IoError (Option Message)} (h : Consumed serde codec src result codec' src') :
    result ≠ .error missingLengthState := by
  cases h with
  | headerIncomplete | bodyIncomplete | header => simp
  | headerError _ _ he =>
    intro h
    exact headerError_ne_missing (parseContentLength_error he) (Except.error.inj h)
  | body | headerAndBody => exact parseBody_ne_missing serde _

theorem decode_consumed (codec : LspCodec) (src : Bytes) :
    ∃ result codec' src', decode serde codec src = .ok (result, codec', src') ∧
      Consumed serde codec src result codec' src' := by
  rcases codec with ⟨_ | n⟩
  · rcases header_cases src with hi | ⟨i, hi, ⟨e, he⟩ | ⟨n, hn⟩⟩
    · exact ⟨_, _, _, decode_of_no_terminator serde hi, .headerIncomplete rfl hi⟩
    · exact ⟨_, _, _, decode_header_error serde hi he, .headerError rfl (headerAt_of_first hi) he⟩
    · rw [decode_header serde hi hn]
      have hat := headerAt_of_first hi
      rcases lt_or_ge (src.drop (i + 4)).length n with hlen | hlen
      · exact ⟨_, _, _, decode_of_short serde hlen, .header rfl hat hn hlen⟩
      · rw [← List.take_append_drop n (src.drop (i + 4))] at hat
        refine ⟨_, _, _, decode_body serde hlen, .headerAndBody rfl hat ?_⟩
        rwa [List.length_take, Nat.min_eq_left hlen]
  · rcases lt_or_ge src.length n with hlen | hlen
    · exact ⟨_, _, _, decode_of_short serde hlen, .bodyIncomplete rfl hlen⟩
    · refine ⟨_, _, _, decode_body serde hlen, .body ?_ (List.take_append_drop n src).symm⟩
      rw [List.length_take, Nat.min_eq_left hlen]

/-- No buffer and no state make a call panic or reach the branch without a length. -/
theorem decode_safe (codec : LspCodec) (src : Bytes) :
    (∃ result codec' src', decode serde codec src = .ok (result, codec', src') ∧
      result ≠ .error missingLengthState ∧ Consumed serde codec src result codec' src') ∧
    (∀ i, findSubsequence src headerTerminator = some i →
      i + headerTerminator.length ≤ src.length) ∧
    ∀ line, headerName <+: line.map Char.toLower →
      ∃ name value, line = name ++ value ∧ (utf8Bytes name).length = headerName.length ∧
        sliceFrom headerName.length line = some value := by
  refine ⟨?_, fun i hi ↦ terminator_le hi, fun line hline ↦ ?_⟩
  · obtain ⟨result, codec', src', hdecode, hconsumed⟩ := decode_consumed serde codec src
    exact ⟨result, codec', src', hdecode, hconsumed.ne_missing, hconsumed⟩
  · have hslice := sliceFrom_headerName hline
    obtain ⟨name, heq, hlen⟩ := sliceFrom_eq_some.mp hslice
    exact ⟨name, _, heq, hlen, hslice⟩

end LspServerTokio.LspCodec
