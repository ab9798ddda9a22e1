import LspServerTokio.Foundation.Incremental
import LspServerTokio.HeaderLines
import LspServerTokio.MessageRoundTrip

namespace LspServerTokio

open Foundation Foundation.Text Foundation.Incremental

namespace LspCodec

/-- What ends a stream: an error in a header, after which the same bytes are parsed again and again. -/
inductive Failure
  | panic (p : Panic)
  | header (e : IoError)
  deriving DecidableEq

/-- One call of `decode` in a loop that goes on until it returns `Ok(None)`. An error in a body is
an outcome like a message. -/
def poll (serde : SerdeJson) (codec : LspCodec) (src : Bytes) :
    Poll UInt8 LspCodec (Except IoError Message) Failure :=
  match decode serde codec src with
  | .error p => .fatal (.panic p)
  | .ok (.ok none, codec, src) => .pending codec src
  | .ok (.ok (some message), codec, src) => .item (.ok message) codec src
  | .ok (.error (.invalidData (.serdeJson e)), codec, src) =>
    .item (.error (.invalidData (.serdeJson e))) codec src
  | .ok (.error e, _, _) => .fatal (.header e)

variable (serde : SerdeJson) {src : Bytes} {i n : ℕ}

section Poll

theorem poll_of_no_terminator (hi : findSubsequence src headerTerminator = none) :
    poll serde ⟨none⟩ src = .pending ⟨none⟩ src := by
  simp only [poll, decode_of_no_terminator serde hi]

theorem poll_header_error (hi : findSubsequence src headerTerminator = some i) {e : IoError}
    (he : parseContentLength (src.take i) = .ok (.error e)) :
    poll serde ⟨none⟩ src = .fatal (.header e) := by
  simp only [poll, decode_header_error serde hi he]
  split
  all_goals simp_all
  exact nomatch parseContentLength_error he

theorem poll_header (hi : findSubsequence src headerTerminator = some i)
    (hn : parseContentLength (src.take i) = .ok (.ok n)) :
    poll serde ⟨none⟩ src = poll serde ⟨some n⟩ (src.drop (i + 4)) := by
  simp only [poll, decode_header serde hi hn]

theorem poll_of_short (h : src.length < n) : poll serde ⟨some n⟩ src = .pending ⟨some n⟩ src := by
  simp only [poll, decode_of_short serde h]

theorem poll_body (h : n ≤ src.length) :
    poll serde ⟨some n⟩ src = .item (parseBody serde (src.take n)) ⟨none⟩ (src.drop n) := by
  simp only [poll, decode_body serde h, parseBody]
  cases serde.fromSlice (src.take n) >>= Message.deserialize <;> rfl

theorem header_append (hi : findSubsequence src headerTerminator = some i) (x : Bytes) :
    findSubsequence (src ++ x) headerTerminator = some i ∧ (src ++ x).take i = src.take i ∧
      (src ++ x).drop (i + 4) = src.drop (i + 4) ++ x := by
  have hle := terminator_le hi
  refine ⟨?_, List.take_append_of_le_length (by omega), List.drop_append_of_le_length hle⟩
  exact findSubsequence_eq_some.mpr ((findSubsequence_eq_some.mp hi).append (by decide) x)

/-- With the header read, in an earlier call or in this one, a body of `n` bytes is expected at the
front of `rest`. -/
inductive HeaderRead : LspCodec → Bytes → ℕ → Bytes → Prop
  | before {n : ℕ} {src : Bytes} : HeaderRead ⟨some n⟩ src n src
  | now {n i : ℕ} {src : Bytes} : findSubsequence src headerTerminator = some i →
      parseContentLength (src.take i) = .ok (.ok n) → HeaderRead ⟨none⟩ src n (src.drop (i + 4))

theorem HeaderRead.poll_eq {codec : LspCodec} {rest : Bytes} (h : HeaderRead codec src n rest) :
    poll serde codec src = poll serde ⟨some n⟩ rest := by
  cases h with
  | before => rfl
  | now hi hn => exact poll_header serde hi hn

theorem HeaderRead.append {codec : LspCodec} {rest : Bytes} (h : HeaderRead codec src n rest)
    (x : Bytes) : HeaderRead codec (src ++ x) n (rest ++ x) := by
  cases h with
  | before => exact .before
  | now hi hn =>
    obtain ⟨hi', htake, hdrop⟩ := header_append hi x
    rw [← hdrop]
    exact .now hi' (htake ▸ hn)

inductive Polled (codec : LspCodec) (src : Bytes) :
    Poll UInt8 LspCodec (Except IoError Message) Failure → Prop
  | noTerminator : codec = ⟨none⟩ → findSubsequence src headerTerminator = none →
      Polled codec src (.pending codec src)
  | headerError {i : ℕ} {e : IoError} : codec = ⟨none⟩ →
      findSubsequence src headerTerminator = some i →
      parseContentLength (src.take i) = .ok (.error e) → Polled codec src (.fatal (.header e))
  | short {n : ℕ} {rest : Bytes} : HeaderRead codec src n rest → rest.length < n →
      Polled codec src (.pending ⟨some n⟩ rest)
  | body {n : ℕ} {rest : Bytes} : HeaderRead codec src n rest → n ≤ rest.length →
      Polled codec src (.item (parseBody serde (rest.take n)) ⟨none⟩ (rest.drop n))

theorem HeaderRead.polled {codec : LspCodec} {rest : Bytes} (h : HeaderRead codec src n rest) :
    Polled serde codec src (poll serde codec src) := by
  rw [h.poll_eq]
  rcases lt_or_ge rest.length n with hlen | hlen
  · rw [poll_of_short serde hlen]
    exact .short h hlen
  · rw [poll_body serde hlen]
    exact .body h hlen

theorem polled (codec : LspCodec) (src : Bytes) : Polled serde codec src (poll serde codec src) := by
  rcases codec with ⟨_ | n⟩
  · rcases header_cases src with hi | ⟨i, hi, ⟨e, he⟩ | ⟨n, hn⟩⟩
    · rw [poll_of_no_terminator serde hi]
      exact .noTerminator rfl hi
    · rw [poll_header_error serde hi he]
      exact .headerError rfl hi he
    · exact (HeaderRead.now hi hn).polled serde
  · exact HeaderRead.before.polled serde

/-- A header that has been read counts as progress, and so does each byte that is consumed. -/
def remaining (codec : LspCodec) (src : Bytes) : ℕ :=
  2 * src.length + if codec.contentLength.isSome then 1 else 0

theorem HeaderRead.remaining_le {codec : LspCodec} {rest : Bytes}
    (h : HeaderRead codec src n rest) : 2 * rest.length < remaining codec src := by
  cases h with
  | before => simp [remaining]
  | now hi _ =>
    have := terminator_le hi
    simp only [remaining, List.length_drop]
    omega

end Poll

def decoder : Decoder UInt8 LspCodec (Except IoError Message) Failure where
  poll := poll serde
  measure := remaining
  measure_lt {s b o s' b'} h := by
    have hp := h ▸ polled serde s b
    cases hp with
    | @body n rest hr hlen =>
      have hlt := hr.remaining_le
      have hd : remaining ⟨none⟩ (rest.drop n) = 2 * (rest.length - n) := by simp [remaining]
      omega
  item_append {s b o s' b'} h x := by
    have hp := h ▸ polled serde s b
    cases hp with
    | body hr hlen =>
      rw [(hr.append x).poll_eq, poll_body serde (by simp; omega),
        List.take_append_of_le_length hlen, List.drop_append_of_le_length hlen]
  fatal_append {s b e} h x := by
    have hp := h ▸ polled serde s b
    cases hp with
    | headerError hs hi he =>
      obtain ⟨hi', htake, -⟩ := header_append hi x
      rw [hs]
      exact poll_header_error serde hi' (htake ▸ he)
  pending_append {s b s' b'} h x := by
    have hp := h ▸ polled serde s b
    cases hp with
    | noTerminator => rfl
    | short hr hlen => exact (hr.append x).poll_eq serde

theorem decoder_poll (codec : LspCodec) (src : Bytes) :
    (decoder serde).poll codec src = poll serde codec src := rfl

theorem poll_new_nil : (decoder serde).poll new [] = .pending new [] :=
  have hnone : findSubsequence [] headerTerminator = none := by decide
  poll_of_no_terminator serde hnone

def shutdownText : Bytes :=
  utf8Bytes "\x7b\"jsonrpc\":\"2.0\",\"id\":1,\"method\":\"shutdown\"\x7d".toList

def exitText : Bytes := utf8Bytes "\x7b\"jsonrpc\":\"2.0\",\"method\":\"exit\"\x7d".toList

/-- What serde_json does with the two messages that end a session. -/
def shutdownSerde : SerdeJson where
  toVec
    | .object [("jsonrpc", .string "2.0"), ("id", .number (.posInt ⟨1, _⟩)),
        ("method", .string "shutdown")] => .ok ⟨shutdownText, by decide⟩
    | .object [("jsonrpc", .string "2.0"), ("method", .string "exit")] => .ok ⟨exitText, by decide⟩
    | _ => .error .serde
  fromSlice bytes :=
    if bytes = shutdownText then .ok (.object [("jsonrpc", .string "2.0"),
      ("id", .number (.posInt ⟨1, by decide⟩)), ("method", .string "shutdown")])
    else if bytes = exitText then
      .ok (.object [("jsonrpc", .string "2.0"), ("method", .string "exit")])
    else .error .serde

section Frames

/-- A body behind a header with its length. -/
def frame (body : ByteVec) : Bytes := header body.val.length ++ body.val

def headerLine (length : ℕ) : List Char := "Content-Length: ".toList ++ Nat.toDigits 10 length

theorem header_eq (length : ℕ) :
    header length = utf8Bytes (headerBlock [headerLine length]) ++ headerTerminator := by
  have hblock : headerBlock [headerLine length] = headerLine length := List.intercalate_singleton
  rw [hblock]
  exact utf8Bytes_append _ _

theorem lengthLine_headerLine (length : ℕ) : LengthLine length (headerLine length) := by
  have hname : "Content-Length: ".toList = "Content-Length:".toList ++ [' '] := rfl
  have hline : headerLine length =
      "Content-Length:".toList ++ ([' '] ++ Nat.toDigits 10 length ++ []) := calc
    headerLine length = ("Content-Length:".toList ++ [' ']) ++ Nat.toDigits 10 length :=
      congrArg (· ++ Nat.toDigits 10 length) hname
    _ = "Content-Length:".toList ++ ([' '] ++ Nat.toDigits 10 length ++ []) := by
      simp only [List.append_assoc, List.append_nil]
  rw [hline]
  exact .mk (by decide) (by simp) (by simp)

/-- Any lines around the one with the length make no difference to what is read. -/
theorem headerRead_block {lines : List (List Char)} (hlines : lines ≠ [])
    (hne : ∀ line ∈ lines, line ≠ []) (hcr : ∀ line ∈ lines, '\r' ∉ line) {length : ℕ}
    (h : parseLines lines = .ok (.ok length)) (rest : Bytes) :
    HeaderRead new (utf8Bytes (headerBlock lines) ++ headerTerminator ++ rest) length rest := by
  have hread := HeaderRead.now (findSubsequence_block hne hcr rest) (n := length)
    (by rw [List.append_assoc, List.take_left, parseContentLength_block hlines hcr, h])
  rwa [← length_headerTerminator, ← List.length_append, List.drop_left] at hread

theorem findSubsequence_header (length : ℕ) (rest : Bytes) :
    findSubsequence (header length ++ rest) headerTerminator =
      some (utf8Bytes (headerBlock [headerLine length])).length := by
  have hline := lengthLine_headerLine length
  rw [header_eq]
  exact findSubsequence_block (by simpa using hline.ne_nil) (by simpa using hline.cr_not_mem) rest

theorem headerRead_header {length : ℕ} (h : length < 2 ^ 64) (rest : Bytes) :
    HeaderRead new (header length ++ rest) length rest := by
  have hline := lengthLine_headerLine length
  rw [header_eq]
  exact headerRead_block (by simp) (by simpa using hline.ne_nil) (by simpa using hline.cr_not_mem)
    (hline.parse h []) rest

theorem HeaderRead.decode_eq {codec : LspCodec} {rest : Bytes} (h : HeaderRead codec src n rest) :
    decode serde codec src = decode serde ⟨some n⟩ rest := by
  cases h with
  | before => rfl
  | now hi hn => exact decode_header serde hi hn

theorem HeaderRead.decode_body {codec : LspCodec} {body : ByteVec} {rest : Bytes}
    (h : HeaderRead codec src body.val.length (body.val ++ rest)) :
    decode serde codec src = .ok ((parseBody serde body.val).map some, new, rest) := by
  rw [h.decode_eq, LspCodec.decode_body serde (by simp), List.take_left, List.drop_left]
  rfl

/-- Each frame is consumed as a whole, also if its body is no message. -/
theorem decode_frame (body : ByteVec) (rest : Bytes) :
    decode serde new (frame body ++ rest) =
      .ok ((parseBody serde body.val).map some, new, rest) := by
  rw [frame, List.append_assoc]
  exact (headerRead_header body.property (body.val ++ rest)).decode_body serde

theorem poll_frame (body : ByteVec) (rest : Bytes) :
    (decoder serde).poll new (frame body ++ rest) = .item (parseBody serde body.val) new rest := by
  have hread := headerRead_header body.property (body.val ++ rest)
  rw [decoder_poll, frame, List.append_assoc, hread.poll_eq, poll_body serde (by simp),
    List.take_left, List.drop_left]
  rfl

theorem drain_new_nil : (decoder serde).drain new [] = ([], .ok (new, [])) :=
  (decoder serde).drain_pending (poll_new_nil serde)

theorem drain_frames (bodies : List ByteVec) (rest : Bytes) :
    (decoder serde).drain new (bodies.flatMap frame ++ rest) =
      (bodies.map (parseBody serde ·.val) ++ ((decoder serde).drain new rest).1,
        ((decoder serde).drain new rest).2) := by
  induction bodies with
  | nil => rfl
  | cons body bodies ih =>
    have hpoll := poll_frame serde body (bodies.flatMap frame ++ rest)
    rw [List.flatMap_cons, List.append_assoc, (decoder serde).drain_item hpoll, ih]
    rfl

/-- However a stream is cut into pieces, the decoder reports the same messages and errors, and if
no header is broken it ends with the same buffer in the same state. -/
theorem decode_chunks {chunks chunks' : List Bytes} (h : chunks.flatten = chunks'.flatten) :
    (decoder serde).feed new [] chunks = (decoder serde).feed new [] chunks' :=
  (decoder serde).feed_eq_feed (poll_new_nil serde) h

def sampleBodies : List ByteVec :=
  [⟨shutdownText, by decide⟩, ⟨[255], by decide⟩, ⟨exitText, by decide⟩]

/-- The frames of a message, of a body that is not JSON and of another message. The cuts are in the
name and in the terminator of the first header, in the first body, and in the second terminator. -/
def sampleChunks : List Bytes :=
  let stream := sampleBodies.flatMap frame
  [stream.take 5, (stream.drop 5).take 15, (stream.drop 20).take 20, [], (stream.drop 40).take 45,
    stream.drop 85]

theorem decode_chunks_cut_in_frames :
    (decoder shutdownSerde).feed new [] sampleChunks =
      ([.ok (.request ⟨.integer ⟨1, by decide⟩, "shutdown", none⟩),
        .error (.invalidData (.serdeJson .serde)), .ok (.notification ⟨"exit", none⟩)],
        .ok (new, [])) := by
  have hflatten : sampleChunks.flatten = [sampleBodies.flatMap frame].flatten := by decide +kernel
  have hdrain := drain_frames shutdownSerde sampleBodies []
  rw [List.append_nil, drain_new_nil] at hdrain
  rw [decode_chunks shutdownSerde hflatten, (decoder shutdownSerde).feed_eq_drain (poll_new_nil _),
    List.flatten_singleton, List.nil_append, hdrain]
  rfl

theorem findSubsequence_partial_header {length : ℕ} {part : Bytes} (hpart : part <+: header length)
    (hlen : part.length < (header length).length) : findSubsequence part headerTerminator = none := by
  obtain ⟨tail, htail⟩ := hpart
  have hfirst := findSubsequence_header length []
  rw [List.append_nil, findSubsequence_eq_some] at hfirst
  rw [findSubsequence_eq_none]
  refine hfirst.not_mem_take (by decide) htail.symm ?_
  rwa [header_eq, List.length_append] at hlen

/-- A part of a frame stops in the header, or behind it with some of the body missing. -/
theorem partial_frame {last : ByteVec} {part : Bytes} (hpart : part <+: frame last)
    (hne : part ≠ frame last) :
    findSubsequence part headerTerminator = none ∨
      ∃ rest, part = header last.val.length ++ rest ∧ rest.length < last.val.length := by
  rcases lt_or_ge part.length (header last.val.length).length with hlen | hlen
  · have hheader : part <+: header last.val.length :=
      List.prefix_of_prefix_length_le hpart (List.prefix_append _ _) hlen.le
    exact .inl (findSubsequence_partial_header hheader hlen)
  · obtain ⟨rest, rfl⟩ := List.prefix_of_prefix_length_le (List.prefix_append _ _) hpart hlen
    have hrest : rest <+: last.val := (List.prefix_append_right_inj _).mp hpart
    refine .inr ⟨rest, rfl, lt_of_le_of_ne hrest.length_le fun he ↦ hne ?_⟩
    rw [frame, hrest.eq_of_length he]

end Frames

section RoundTrip

def encodeAll : List Message → Bytes → Except IoError Bytes
  | [], dst => .ok dst
  | message :: messages, dst =>
    match encode serde message dst with
    | (.error e, _) => .error e
    | (.ok (), dst) => encodeAll messages dst

theorem parseBody_normalize {body : Bytes} {m : Message} (h : parseBody serde body = .ok m) :
    m.normalize = m := by
  unfold parseBody at h
  split at h
  · next message hm =>
    cases h
    obtain ⟨j, -, hj⟩ := Grammar.bind_eq_ok.mp hm
    exact MessageRoundTrip.normalize_of_deserialize hj
  · exact nomatch h

theorem decode_normalize {codec codec' : LspCodec} {src src' : Bytes} {m : Message}
    (h : decode serde codec src = .ok (.ok (some m), codec', src')) : m.normalize = m := by
  have hpoll : poll serde codec src = .item (.ok m) codec' src' := by simp only [poll, h]
  have hp := hpoll ▸ polled serde codec src
  generalize hitem : Poll.item (Except.ok m) codec' src' = p at hp
  cases hp with
  | body _ _ =>
    simp only [Poll.item.injEq] at hitem
    exact parseBody_normalize serde hitem.1.symm
  | _ => exact nomatch hitem

theorem encode_of_inverse {m : Message} (h : serde.Inverse m.serialize) :
    ∃ json, (∀ dst, encode serde m dst = (.ok (), dst ++ frame json)) ∧
      parseBody serde json.val = .ok m.normalize := by
  obtain ⟨json, hto, hfrom⟩ := h
  refine ⟨json, fun dst ↦ ?_, ?_⟩
  · simp only [encode, hto, frame, List.append_assoc]
  · simp only [parseBody, hfrom, bind, Except.bind, MessageRoundTrip.message]

theorem encodeAll_of_inverse {ms : List Message} (h : ∀ m ∈ ms, serde.Inverse m.serialize) :
    ∃ jsons : List ByteVec, (∀ dst, encodeAll serde ms dst = .ok (dst ++ jsons.flatMap frame)) ∧
      jsons.map (parseBody serde ·.val) = ms.map (.ok ·.normalize) := by
  induction ms with
  | nil => exact ⟨[], fun dst ↦ by rw [List.flatMap_nil, List.append_nil, encodeAll], rfl⟩
  | cons m ms ih =>
    obtain ⟨json, hencode, hparse⟩ := encode_of_inverse serde (h m List.mem_cons_self)
    obtain ⟨jsons, hall, hmap⟩ := ih fun m hm ↦ h m (List.mem_cons_of_mem _ hm)
    refine ⟨json :: jsons, fun dst ↦ ?_, ?_⟩
    · rw [encodeAll, hencode, List.flatMap_cons, ← List.append_assoc]
      exact hall _
    · rw [List.map_cons, List.map_cons, hparse, hmap]

theorem decode_encode {m : Message} (h : serde.Inverse m.serialize) :
    decode serde new (encode serde m []).2 = .ok (.ok (some m.normalize), new, []) := by
  obtain ⟨json, hencode, hparse⟩ := encode_of_inverse serde h
  have hdecode := decode_frame serde json []
  rw [List.append_nil, hparse] at hdecode
  rw [hencode, List.nil_append]
  exact hdecode

/-- A stream of encoded messages is decoded into these messages in normal form, to its last byte.
The normal forms are the messages that can be decoded at all. -/
theorem decode_encodeAll {ms : List Message} (h : ∀ m ∈ ms, serde.Inverse m.serialize) :
    (∃ bytes, encodeAll serde ms [] = .ok bytes ∧
      (decoder serde).drain new bytes = (ms.map (.ok ·.normalize), .ok (new, []))) ∧
    (∀ codec src m codec' src', decode serde codec src = .ok (.ok (some m), codec', src') →
      m.normalize = m) ∧
    ∀ m ∈ ms, (∃ codec src codec' src', decode serde codec src = .ok (.ok (some m), codec', src')) ↔
      decode serde new (encode serde m []).2 = .ok (.ok (some m), new, []) := by
  refine ⟨?_, fun _ _ _ _ _ hm ↦ decode_normalize serde hm, fun m hm ↦ ⟨?_, fun hm ↦ ⟨_, _, _, _, hm⟩⟩⟩
  · obtain ⟨jsons, hall, hmap⟩ := encodeAll_of_inverse serde h
    refine ⟨_, hall [], ?_⟩
    have hdrain := drain_frames serde jsons []
    rw [drain_new_nil, List.append_nil, List.append_nil, hmap] at hdrain
    rwa [List.nil_append]
  · intro hp
    obtain ⟨codec, src, codec', src', hdecode⟩ := hp
    have hnormal := decode_normalize serde hdecode
    rw [decode_encode serde (h m hm), hnormal]

def shutdownSession : List Message :=
  [.request ⟨.integer ⟨1, by decide⟩, "shutdown", none⟩, .notification ⟨"exit", none⟩]

theorem decode_encodeAll_shutdown :
    ∃ bytes, encodeAll shutdownSerde shutdownSession [] = .ok bytes ∧
      (decoder shutdownSerde).drain new bytes =
        (shutdownSession.map (.ok ·.normalize), .ok (new, [])) := by
  refine (decode_encodeAll shutdownSerde fun m hm ↦ ?_).1
  rcases List.mem_cons.mp hm with rfl | hm
  · exact ⟨⟨shutdownText, by decide⟩, rfl, rfl⟩
  · rw [List.mem_singleton.mp hm]
    exact ⟨⟨exitText, by decide⟩, rfl, rfl⟩

end RoundTrip

end LspCodec

end LspServerTokio
