import LspServerTokio.CodecStream

namespace LspServerTokio.LspCodec

open Foundation Foundation.Incremental

abbrev DecodeEof := LspCodec → Bytes → Except Panic (Except IoError (Option Message) × LspCodec × Bytes)

/-- The method that a `Decoder` has if it does not define one itself. -/
structure DefaultEof (serde : SerdeJson) (eof : DecodeEof) : Prop where
  decided : ∀ {codec src result codec' src'}, decode serde codec src = .ok (result, codec', src') →
    result ≠ .ok none → eof codec src = .ok (result, codec', src')
  clean : ∀ {codec src codec'}, decode serde codec src = .ok (.ok none, codec', []) →
    eof codec src = .ok (.ok none, codec', [])
  remaining : ∀ {codec src codec' src'}, decode serde codec src = .ok (.ok none, codec', src') →
    src' ≠ [] → ∃ e, eof codec src = .ok (.error e, codec', src')

variable (serde : SerdeJson)

def EndsCleanly (eof : DecodeEof) (codec : LspCodec) (src : Bytes) : Prop :=
  ∃ codec' src', eof codec src = .ok (.ok none, codec', src')

def EndsWithError (eof : DecodeEof) (codec : LspCodec) (src : Bytes) : Prop :=
  ∃ e codec' src', eof codec src = .ok (.error e, codec', src')

section Cut

/-- The encoding of `ms` is cut `begun` bytes into the frame whose body is `json`. -/
structure CutAt (ms : List Message) (part begun : Bytes) (json : ByteVec) : Prop where
  split : ∃ before m after done, ms = before ++ m :: after ∧ encodeAll serde before [] = .ok done ∧
    serde.toVec m.serialize = .ok json ∧ part = done ++ begun
  isPrefix : begun <+: frame json

def OnBoundary (ms : List Message) (part : Bytes) : Prop :=
  ∃ before after, ms = before ++ after ∧ encodeAll serde before [] = .ok part

def InFrame (ms : List Message) (part : Bytes) : Prop :=
  ∃ begun json, CutAt serde ms part begun json ∧ begun ≠ [] ∧ begun ≠ frame json

/-- The cut is between a header and its body. -/
def BehindHeader (ms : List Message) (part : Bytes) : Prop :=
  ∃ json, CutAt serde ms part (header json.val.length) json ∧ json.val ≠ []

theorem encodeAll_append (ms : List Message) (dst : Bytes) :
    encodeAll serde ms dst = (encodeAll serde ms []).map (dst ++ ·) := by
  induction ms generalizing dst with
  | nil => simp [encodeAll, Except.map]
  | cons m ms ih =>
    rw [encodeAll, encodeAll]
    rcases h : serde.toVec m.serialize with e | json
    · simp [encode, h, Except.map]
    · simp only [encode, h, List.nil_append]
      rw [ih (dst ++ _ ++ _), ih (_ ++ json.val)]
      cases encodeAll serde ms [] <;> simp [Except.map]

theorem encodeAll_cons {m : Message} {ms : List Message} {bytes : Bytes} :
    encodeAll serde (m :: ms) [] = .ok bytes ↔ ∃ json rest, serde.toVec m.serialize = .ok json ∧
      encodeAll serde ms [] = .ok rest ∧ bytes = frame json ++ rest := by
  rw [encodeAll]
  rcases h : serde.toVec m.serialize with e | json
  · simp [encode, h]
  · simp only [encode, h, List.nil_append]
    rw [encodeAll_append, Grammar.map_eq_ok]
    simp [frame, eq_comm]

theorem encodeAll_frames {ms : List Message} {bytes : Bytes} (h : encodeAll serde ms [] = .ok bytes) :
    ∃ jsons : List ByteVec, bytes = jsons.flatMap frame := by
  induction ms generalizing bytes with
  | nil =>
    cases h
    exact ⟨[], rfl⟩
  | cons m ms ih =>
    obtain ⟨json, rest, -, hrest, rfl⟩ := (encodeAll_cons serde).mp h
    obtain ⟨jsons, rfl⟩ := ih hrest
    exact ⟨json :: jsons, rfl⟩

variable {serde} {m : Message} {ms : List Message} {json : ByteVec} {part : Bytes}

theorem OnBoundary.cons (h : OnBoundary serde ms part) (hm : serde.toVec m.serialize = .ok json) :
    OnBoundary serde (m :: ms) (frame json ++ part) := by
  obtain ⟨before, after, rfl, hbefore⟩ := h
  exact ⟨m :: before, after, rfl, (encodeAll_cons serde).mpr ⟨json, part, hm, hbefore, rfl⟩⟩

theorem InFrame.cons (h : InFrame serde ms part) (hm : serde.toVec m.serialize = .ok json) :
    InFrame serde (m :: ms) (frame json ++ part) := by
  obtain ⟨begun, last, ⟨⟨before, m', after, done, rfl, hbefore, hlast, rfl⟩, hpre⟩, hne⟩ := h
  refine ⟨begun, last, ⟨⟨m :: before, m', after, frame json ++ done, rfl, ?_, hlast, ?_⟩, hpre⟩, hne⟩
  · exact (encodeAll_cons serde).mpr ⟨json, done, hm, hbefore, rfl⟩
  · rw [List.append_assoc]

/-- Every prefix of a stream ends on a frame boundary or within a frame. -/
theorem cut_cases {bytes : Bytes} (h : encodeAll serde ms [] = .ok bytes) (hpart : part <+: bytes) :
    OnBoundary serde ms part ∨ InFrame serde ms part := by
  induction ms generalizing bytes part with
  | nil =>
    cases h
    rw [List.prefix_nil.mp hpart]
    exact .inl ⟨[], [], rfl, rfl⟩
  | cons m ms ih =>
    obtain ⟨json, rest, hm, hrest, rfl⟩ := (encodeAll_cons serde).mp h
    rcases List.prefix_or_prefix_of_prefix hpart (List.prefix_append _ rest) with hp | ⟨part, rfl⟩
    · rcases eq_or_ne part [] with rfl | hnil
      · exact .inl ⟨[], m :: ms, rfl, rfl⟩
      · rcases eq_or_ne part (frame json) with rfl | hne
        · refine .inl ⟨[m], ms, rfl, (encodeAll_cons serde).mpr ⟨json, [], hm, rfl, ?_⟩⟩
          rw [List.append_nil]
        · exact .inr ⟨part, json, ⟨⟨[], m, ms, [], rfl, rfl, hm, rfl⟩, hp⟩, hnil, hne⟩
    · rcases ih hrest ((List.prefix_append_right_inj _).mp hpart) with hp | hp
      · exact .inl (hp.cons hm)
      · exact .inr (hp.cons hm)

end Cut

section Left

/-- Once the decoder has nothing more to give it is left in the state `codec` with the buffer `src`. -/
def Left (part : Bytes) (codec : LspCodec) (src : Bytes) : Prop :=
  ∃ outs, (decoder serde).drain new part = (outs, .ok (codec, src))

variable {serde} {ms : List Message} {part src src' : Bytes} {codec codec' : LspCodec}

theorem Left.unique (h : Left serde part codec src) (h' : Left serde part codec' src') :
    codec = codec' ∧ src = src' := by
  obtain ⟨outs, h⟩ := h
  obtain ⟨outs', h'⟩ := h'
  rw [h] at h'
  simpa using congrArg Prod.snd h'

theorem Left.decode (h : Left serde part codec src) :
    decode serde codec src = .ok (.ok none, codec, src) := by
  obtain ⟨outs, h⟩ := h
  have hpoll : poll serde codec src = .pending codec src := (decoder serde).poll_of_drain h
  unfold poll at hpoll
  split at hpoll <;> simp_all

theorem left_of_pending {done begun : Bytes} {before : List Message}
    (hbefore : encodeAll serde before [] = .ok done)
    (h : (decoder serde).poll new begun = .pending codec src) : Left serde (done ++ begun) codec src := by
  obtain ⟨jsons, rfl⟩ := encodeAll_frames serde hbefore
  exact ⟨_, by rw [drain_frames, (decoder serde).drain_pending h]⟩

theorem left_of_onBoundary (h : OnBoundary serde ms part) : Left serde part new [] := by
  obtain ⟨before, after, -, hbefore⟩ := h
  rw [← List.append_nil part]
  exact left_of_pending hbefore (poll_new_nil serde)

theorem poll_behind_header (json : ByteVec) {rest : Bytes} (h : rest.length < json.val.length) :
    (decoder serde).poll new (header json.val.length ++ rest) = .pending ⟨some json.val.length⟩ rest := by
  rw [decoder_poll, (headerRead_header json.property rest).poll_eq, poll_of_short serde h]

theorem left_of_behindHeader (h : BehindHeader serde ms part) : ∃ n, Left serde part ⟨some n⟩ [] := by
  obtain ⟨json, ⟨⟨before, m, after, done, -, hbefore, -, rfl⟩, -⟩, hjson⟩ := h
  have hpoll : (decoder serde).poll new (header json.val.length ++ []) =
      .pending ⟨some json.val.length⟩ [] := poll_behind_header json (List.length_pos_iff.mpr hjson)
  rw [List.append_nil] at hpoll
  exact ⟨_, left_of_pending hbefore hpoll⟩

/-- In a frame the decoder has bytes left, unless the cut is right behind the header. -/
theorem left_of_inFrame (h : InFrame serde ms part) :
    (∃ codec src, Left serde part codec src ∧ src ≠ []) ∨ BehindHeader serde ms part := by
  obtain ⟨begun, json, hcut, hnil, hne⟩ := h
  obtain ⟨before, m, after, done, -, hbefore, -, rfl⟩ := hcut.split
  rcases partial_frame hcut.isPrefix hne with hnone | ⟨rest, rfl, hrest⟩
  · exact .inl ⟨_, _, left_of_pending hbefore (poll_of_no_terminator serde hnone), hnil⟩
  · rcases eq_or_ne rest [] with rfl | hr
    · rw [List.append_nil] at hcut
      exact .inr ⟨json, by rwa [List.append_nil], List.length_pos_iff.mp hrest⟩
    · exact .inl ⟨_, _, left_of_pending hbefore (poll_behind_header json hrest), hr⟩

theorem inFrame_of_behindHeader (h : BehindHeader serde ms part) : InFrame serde ms part := by
  obtain ⟨json, hcut, hjson⟩ := h
  refine ⟨header json.val.length, json, hcut, ?_, ?_⟩
  · rw [header_eq]
    exact List.append_ne_nil_of_right_ne_nil _ (by decide)
  · intro he
    exact hjson (List.self_eq_append_right.mp he)

end Left

section DecodeEof

variable {serde} {eof : DecodeEof} {ms : List Message} {part src : Bytes} {codec : LspCodec}

theorem endsCleanly_iff (heof : DefaultEof serde eof)
    (h : decode serde codec src = .ok (.ok none, codec, src)) : EndsCleanly eof codec src ↔ src = [] := by
  constructor
  · intro hclean
    obtain ⟨codec', src', hclean⟩ := hclean
    by_contra hne
    obtain ⟨e, he⟩ := heof.remaining h hne
    rw [he] at hclean
    exact nomatch hclean
  · rintro rfl
    exact ⟨_, _, heof.clean h⟩

theorem endsWithError_iff (heof : DefaultEof serde eof)
    (h : decode serde codec src = .ok (.ok none, codec, src)) : EndsWithError eof codec src ↔ src ≠ [] := by
  constructor
  · rintro herror rfl
    obtain ⟨e, codec', src', herror⟩ := herror
    rw [heof.clean h] at herror
    exact nomatch herror
  · intro hne
    obtain ⟨e, he⟩ := heof.remaining h hne
    exact ⟨e, _, _, he⟩

variable (serde) in
/-- After a prefix of a stream has been fed, in whatever pieces, the end of the input is clean on a
frame boundary and nowhere else, and within a frame it is an error. -/
def TruncationDetected (eof : DecodeEof) (ms : List Message) (part : Bytes) (chunks : List Bytes) : Prop :=
  ∃ outs codec src, (decoder serde).feed new [] chunks = (outs, .ok (codec, src)) ∧
    (EndsCleanly eof codec src ↔ OnBoundary serde ms part) ∧
    (InFrame serde ms part → EndsWithError eof codec src)

theorem truncationDetected_of_left (heof : DefaultEof serde eof) (hleft : Left serde part codec src)
    {chunks : List Bytes} (hchunks : chunks.flatten = part) :
    TruncationDetected serde eof ms part chunks ↔
      (src = [] ↔ OnBoundary serde ms part) ∧ (InFrame serde ms part → src ≠ []) := by
  rw [← endsCleanly_iff heof hleft.decode, ← endsWithError_iff heof hleft.decode]
  have hfeed : (decoder serde).feed new [] chunks = (decoder serde).drain new part := by
    rw [(decoder serde).feed_eq_drain (poll_new_nil serde), List.nil_append, hchunks]
  constructor
  · intro hdetected
    obtain ⟨outs, codec', src', hf, hd⟩ := hdetected
    obtain ⟨rfl, rfl⟩ := hleft.unique ⟨outs, hfeed ▸ hf⟩
    exact hd
  · intro hd
    obtain ⟨outs, hdrain⟩ := hleft
    exact ⟨outs, codec, src, hfeed.trans hdrain, hd⟩

theorem not_detected_of_behindHeader (heof : DefaultEof serde eof) (h : BehindHeader serde ms part)
    {chunks : List Bytes} (hchunks : chunks.flatten = part) :
    ¬ TruncationDetected serde eof ms part chunks := by
  obtain ⟨n, hleft⟩ := left_of_behindHeader h
  rw [truncationDetected_of_left heof hleft hchunks]
  exact fun hd ↦ hd.2 (inFrame_of_behindHeader h) rfl

/-- A truncated stream is noticed unless it stops right behind the header of a frame that has a body:
the header is gone from the buffer then, and the length is all that is left of the frame. -/
theorem truncation_detected_iff (heof : DefaultEof serde eof) {bytes : Bytes}
    (h : encodeAll serde ms [] = .ok bytes) (hpart : part <+: bytes) {chunks : List Bytes}
    (hchunks : chunks.flatten = part) :
    TruncationDetected serde eof ms part chunks ↔ ¬ BehindHeader serde ms part := by
  refine ⟨fun hd hbehind ↦ not_detected_of_behindHeader heof hbehind hchunks hd, fun hbehind ↦ ?_⟩
  rcases cut_cases h hpart with hboundary | hframe
  · have hleft := left_of_onBoundary hboundary
    rw [truncationDetected_of_left heof hleft hchunks]
    refine ⟨iff_of_true rfl hboundary, fun hframe ↦ ?_⟩
    obtain ⟨codec, src, hleft', hne⟩ := (left_of_inFrame hframe).resolve_right hbehind
    exact (hleft.unique hleft').2 ▸ hne
  · obtain ⟨codec, src, hleft, hne⟩ := (left_of_inFrame hframe).resolve_right hbehind
    rw [truncationDetected_of_left heof hleft hchunks]
    refine ⟨iff_of_false hne fun hboundary ↦ hne ?_, fun _ ↦ hne⟩
    exact (hleft.unique (left_of_onBoundary hboundary)).2

section Exit

/-- The default method for the session of `shutdownSerde`. -/
def shutdownEof : DecodeEof := fun codec src ↦
  match decode shutdownSerde codec src with
  | .ok (.ok none, codec, []) => .ok (.ok none, codec, [])
  | .ok (.ok none, codec, src) => .ok (.error (.other "bytes remaining on stream"), codec, src)
  | r => r

theorem defaultEof_shutdownEof : DefaultEof shutdownSerde shutdownEof where
  decided h hne := by
    simp only [shutdownEof, h]
    split <;> simp_all
  clean h := by simp only [shutdownEof, h]
  remaining h hne := by
    simp only [shutdownEof, h]
    exact ⟨_, rfl⟩

theorem encodeAll_exit : encodeAll shutdownSerde [.notification ⟨"exit", none⟩] [] =
    .ok (frame ⟨exitText, by decide⟩) := rfl

theorem truncation_detected_exit :
    TruncationDetected shutdownSerde shutdownEof [.notification ⟨"exit", none⟩] [67, 111]
        [[67], [111]] ↔ ¬ BehindHeader shutdownSerde [.notification ⟨"exit", none⟩] [67, 111] :=
  truncation_detected_iff defaultEof_shutdownEof encodeAll_exit (by decide) (by decide)

theorem truncation_not_detected :
    ¬ ∀ (serde : SerdeJson) (eof : DecodeEof) (ms : List Message) (bytes part : Bytes)
      (chunks : List Bytes), DefaultEof serde eof → ms ≠ [] → encodeAll serde ms [] = .ok bytes →
      part <+: bytes → chunks.flatten = part → TruncationDetected serde eof ms part chunks := by
  intro hall
  have hdetected := hall shutdownSerde shutdownEof [.notification ⟨"exit", none⟩] _
    (header exitText.length) [header exitText.length] defaultEof_shutdownEof (by simp) encodeAll_exit
    (List.prefix_append _ _) (by simp)
  refine not_detected_of_behindHeader defaultEof_shutdownEof ?_ (by simp) hdetected
  exact ⟨⟨exitText, by decide⟩, ⟨⟨[], _, [], [], rfl, rfl, rfl, rfl⟩, List.prefix_append _ _⟩,
    by decide⟩

end Exit

end DecodeEof

end LspServerTokio.LspCodec
