import LspServerTokio.Cancellation
import LspServerTokio.CodecStream

namespace LspServerTokio.CancelWire

open Foundation Cancellation Connection

variable {ω ω' : Type}

section Ids

/-- A number is an `i32` for `as_i64` and `try_from` if it is one for serde: what `as_i64` leaves out
is too large. -/
theorem asI64_bind_tryFrom (n : Number) :
    n.asI64.bind I32.tryFrom = n.asInteger.bind I32.tryFrom := by
  cases n with
  | posInt n =>
    by_cases h : n.val < 2 ^ 63
    · rw [Number.asI64, if_pos h, Number.asInteger]
    · have hout : ¬ (-2 ^ 31 ≤ (n.val : ℤ) ∧ (n.val : ℤ) < 2 ^ 31) := by omega
      rw [Number.asI64, if_neg h, Number.asInteger, Option.bind_none, Option.bind_some, I32.tryFrom,
        dif_neg hout]
  | negInt n => rfl
  | float x => rfl

theorem get_cancelParams (v : Value) : (cancelParams v).get "id" = some v := by
  simp [Value.get, cancelParams, Value.asObject, Entries.get_cons]

theorem parseCancelParams_cancelParams (v : Value) (id : RequestId) :
    parseCancelParams (some (cancelParams v)) = some id ↔ RequestId.deserialize v.json = .ok id := by
  rw [Grammar.requestId_eq_ok]
  cases hv : v.json with
  | number n =>
    have hparse : parseCancelParams (some (cancelParams v)) =
        (n.asInteger.bind I32.tryFrom).map .integer := by
      simp only [parseCancelParams, get_cancelParams, hv, asI64_bind_tryFrom, Option.bind_eq_bind,
        Option.bind_some]
    have hi (i : I32) : n.asInteger.bind I32.tryFrom = some i ↔ i32Deserialize (.number n) = .ok i := by
      simp [Grammar.i32Deserialize_eq_ok, Option.bind_eq_some_iff, I32.tryFrom_eq_some]
    simp only [hparse, Option.map_eq_some_iff, hi, reduceCtorEq, false_and, exists_false, or_false,
      eq_comm (b := id)]
  | string s => simp [parseCancelParams, get_cancelParams, hv, i32Deserialize, eq_comm]
  | null | bool | array | object => simp [parseCancelParams, get_cancelParams, hv, i32Deserialize]

end Ids

section Tokens

/-- The tokens that a connection has made on the way to its state: its shutdown token, and one for
each request that it routed. Whatever else happens makes none and puts none into the table. -/
inductive Made : Connection ω → List Token → Prop
  | new (receiver : List (Except IoError Message)) :
      Made (Connection.new receiver) [(Connection.new receiver : Connection ω).shutdownToken]
  | handOut {c : Connection ω} {made : List Token} (r : Request) : Made c made →
      Made (c.route (.request r)).2.2 ((c.tokens.child c.shutdownToken).1 :: made)
  | other {c c' : Connection ω} {made : List Token} : Made c made → c'.tokens.size = c.tokens.size →
      c'.shutdownToken = c.shutdownToken → (∀ i t, pending c' i = some t → pending c i = some t) →
      Made c' made

def handedOut (c : Connection ω) : Op → List Token
  | .route (.request _) => [(c.tokens.child c.shutdownToken).1]
  | _ => []

theorem handedOut_of_not_replaces (c : Connection ω) {op : Op} (h : ∀ i, ¬ op.Replaces i) :
    handedOut c op = [] := by
  cases op with
  | route message =>
    cases message with
    | request r => exact absurd rfl (h r.id)
    | notification | response => rfl
  | cancelIncoming | handleCancelRequest | complete | handleShutdown => rfl

variable {c : Connection ω} {made : List Token}

theorem made_step (h : Made c made) (op : Op) : Made (step c op) (handedOut c op ++ made) := by
  have hother : handedOut c op = [] → (step c op).tokens.size = c.tokens.size →
      (∀ i t, pending (step c op) i = some t → pending c i = some t) →
      Made (step c op) (handedOut c op ++ made) := by
    intro hnone hsize hentry
    rw [hnone, List.nil_append]
    exact .other h hsize (step_shutdownToken c op) hentry
  have he := step_effect c op
  generalize hc : step c op = c' at he hother ⊢
  cases he with
  | handOut r => exact hc ▸ .handOut r h
  | complete id ht htable =>
    exact hother rfl (by rw [ht]) fun i t hi ↦ (Table.remove_eq_some.mp (htable ▸ hi)).2
  | shutdown id ht htable => exact hother rfl (by rw [ht]; rfl) fun i t hi ↦ htable ▸ hi
  | cancel id _ hr _ ht htable =>
    refine hother (handedOut_of_not_replaces c hr) ?_ fun i t hi ↦ htable ▸ hi
    rcases cancel_incoming (c := c) id with ⟨t, -, hcancel⟩ | ⟨-, hcancel⟩ <;> rw [ht, hcancel]
    rfl
  | none _ hr _ ht htable =>
    exact hother (handedOut_of_not_replaces c hr) (by rw [ht]) fun i t hi ↦ htable ▸ hi

/-- The tokens are the root and its children, and the table holds only children. -/
structure Known (c : Connection ω) (made : List Token) : Prop where
  root : c.shutdownToken = ⟨0, []⟩
  size_pos : 0 < c.tokens.size
  token : ∀ u ∈ made, u = ⟨0, []⟩ ∨ 0 < u.node ∧ u.ancestors = [0]
  entry : ∀ i t, pending c i = some t → 0 < t.node ∧ t.ancestors = [0]

theorem known (h : Made c made) : Known c made := by
  induction h with
  | new receiver =>
    exact ⟨rfl, Nat.one_pos, fun u hu ↦ .inl (List.mem_singleton.mp hu),
      fun i t ht ↦ absurd ht.symm (Option.some_ne_none t)⟩
  | @handOut c made r _ ih =>
    have hchild : 0 < (c.tokens.child c.shutdownToken).1.node ∧
        (c.tokens.child c.shutdownToken).1.ancestors = [0] := by
      rw [ih.root]
      exact ⟨ih.size_pos, rfl⟩
    refine ⟨ih.root, Nat.succ_pos _, List.forall_mem_cons.mpr ⟨.inr hchild, ih.token⟩, fun i t ht ↦ ?_⟩
    rcases Table.insert_eq_some.mp ht with ⟨-, rfl⟩ | ⟨-, ht⟩
    · exact hchild
    · exact ih.entry i t ht
  | other _ hsize htoken hentry ih =>
    exact ⟨htoken.trans ih.root, hsize ▸ ih.size_pos, ih.token,
      fun i t ht ↦ ih.entry i t (hentry i t ht)⟩

/-- No token but itself stands below one of the table. -/
theorem Known.below_iff (h : Known c made) {i : RequestId} {t u : Token} (ht : pending c i = some t)
    (hu : u ∈ made) : t.node ∈ u.node :: u.ancestors ↔ u = t := by
  obtain ⟨hpos, hroot⟩ := h.entry i t ht
  rcases h.token u hu with rfl | ⟨-, hu⟩
  · refine iff_of_false (fun hmem ↦ ?_) fun he ↦ ?_
    · exact hpos.ne' (List.mem_singleton.mp hmem)
    · rw [← he] at hpos
      exact hpos.false
  · rw [hu, List.mem_cons, List.mem_singleton, or_iff_left hpos.ne']
    obtain ⟨node, ancestors⟩ := t
    obtain ⟨node', ancestors'⟩ := u
    rw [Token.mk.injEq, show ancestors' = ancestors from hu.trans hroot.symm, and_iff_left rfl]
    exact eq_comm

end Tokens

section Wire

variable {c c' : Connection ω} {id : RequestId}

/-- What a cancellation does on the side that it starts from. -/
structure CancelsHere (c c' : Connection ω) (id : RequestId) : Prop where
  sent : c'.outbound.sent = c.outbound.sent ++ [.notification (cancelNotification id)]
  removed : c'.requestQueue.outgoing.pending id = none
  kept : ∀ i ≠ id, c'.requestQueue.outgoing.pending i = c.requestQueue.outgoing.pending i

/-- What it does on the other side, to any token and to those that the connection has made. -/
structure CancelsThere (c : Connection ω) (id : RequestId) (n : Notification) : Prop where
  handled : (c.route (.notification n)).1 = .cancelHandled
  token : ∀ u, (c.route (.notification n)).2.2.tokens.IsCancelled u ↔
    c.tokens.IsCancelled u ∨ ∃ t, pending c id = some t ∧ t.node ∈ u.node :: u.ancestors
  made : ∀ made, Made c made → ∀ u ∈ made,
    ((c.route (.notification n)).2.2.tokens.IsCancelled u ↔
      c.tokens.IsCancelled u ∨ pending c id = some u)

/-- A message comes out of the decoder as it went into the encoder, whatever follows. -/
def Carried (serde : SerdeJson) (m : Message) : Prop :=
  ∃ bytes, (∀ dst, LspCodec.encode serde m dst = (.ok (), dst ++ bytes)) ∧
    ∀ rest, LspCodec.decode serde .new (bytes ++ rest) = .ok (.ok (some m), .new, rest)

theorem cancel_ok {found : Bool} (h : c.cancel id = (.ok found, c')) : CancelsHere c c' id := by
  unfold Connection.cancel at h
  by_cases ht : c.outbound.takes = some 0
  · rw [send_of_closed ht] at h
    cases h
  · rw [send_of_open ht] at h
    cases h
    exact ⟨rfl, Table.remove_self _ _, fun i hi ↦ if_neg hi⟩

theorem cancel_error {e : IoError}
    (h : (c.send (.notification (cancelNotification id))).1 = .error e) :
    c.cancel id = (.error e, c) := by
  by_cases ht : c.outbound.takes = some 0
  · rw [send_of_closed ht] at h
    cases h
    rw [Connection.cancel, send_of_closed ht]
  · rw [send_of_open ht] at h
    cases h

theorem cancelled_cancelNotification (id : RequestId) : cancelled (cancelNotification id) = some id := by
  have hid := (parseCancelParams_cancelParams id.toValue id).mpr (MessageRoundTrip.requestId id)
  exact (if_pos rfl).trans hid

theorem cancelsThere (c : Connection ω) (id : RequestId) :
    CancelsThere c id (cancelNotification id) := by
  have hn := cancelled_cancelNotification id
  have htoken : ∀ u, (c.route (.notification (cancelNotification id))).2.2.tokens.IsCancelled u ↔
      c.tokens.IsCancelled u ∨ ∃ t, pending c id = some t ∧ t.node ∈ u.node :: u.ancestors := by
    intro u
    rw [route_of_cancelled c hn]
    rcases cancel_incoming (c := c) id with ⟨t, hi, ht⟩ | ⟨hi, ht⟩ <;>
      simp [ht, hi, Tokens.isCancelled_cancel, or_comm]
  refine ⟨?_, htoken, fun made hmade u hu ↦ (htoken u).trans (or_congr_right ⟨?_, ?_⟩)⟩
  · rw [route_of_cancelled c hn]
  · intro hbelow
    obtain ⟨t, ht, hmem⟩ := hbelow
    rw [((known hmade).below_iff ht hu).mp hmem, ht]
  · exact fun ht ↦ ⟨u, ht, List.mem_cons_self⟩

theorem carried {serde : SerdeJson} (h : serde.Inverse (cancelNotification id).serialize) :
    Carried serde (.notification (cancelNotification id)) := by
  obtain ⟨json, hencode, hparse⟩ := LspCodec.encode_of_inverse serde
    (m := .notification (cancelNotification id)) h
  refine ⟨LspCodec.frame json, hencode, fun rest ↦ ?_⟩
  rw [LspCodec.decode_frame, hparse]
  rfl

end Wire

/-- The two parsers of ids agree, and a cancellation takes away the request here and cancels, on the
other side, the token of the request with this id and no other. -/
theorem cancel_agrees (serde : SerdeJson) :
    (∀ (v : Value) (id : RequestId), parseCancelParams (some (cancelParams v)) = some id ↔
      RequestId.deserialize v.json = .ok id) ∧
    (∀ (c c' : Connection ω) (id : RequestId) (found : Bool), c.cancel id = (.ok found, c') →
      CancelsHere c c' id ∧ (serde.Inverse (cancelNotification id).serialize →
        Carried serde (.notification (cancelNotification id))) ∧
      ∀ d : Connection ω', CancelsThere d id (cancelNotification id)) ∧
    ∀ (c : Connection ω) (id : RequestId) (e : IoError),
      (c.send (.notification (cancelNotification id))).1 = .error e → c.cancel id = (.error e, c) :=
  ⟨parseCancelParams_cancelParams,
    fun _ _ id _ h ↦ ⟨cancel_ok h, carried, fun d ↦ cancelsThere d id⟩,
    fun _ _ _ h ↦ cancel_error h⟩

def cancelText : Bytes := Text.utf8Bytes
  "\x7b\"jsonrpc\":\"2.0\",\"method\":\"$/cancelRequest\",\"params\":\x7b\"id\":\"a\"\x7d\x7d".toList

/-- What serde_json does with the cancellation of one request. -/
def cancelSerde : SerdeJson where
  toVec
    | .object [("jsonrpc", .string "2.0"), ("method", .string "$/cancelRequest"),
        ("params", .object [("id", .string "a")])] => .ok ⟨cancelText, by decide⟩
    | _ => .error .serde
  fromSlice bytes :=
    if bytes = cancelText then .ok (.object [("jsonrpc", .string "2.0"),
      ("method", .string "$/cancelRequest"), ("params", .object [("id", .string "a")])])
    else .error .serde

/-- A side that waits for the answers to two requests. -/
def waiting : Connection ℕ where
  __ := Connection.new []
  requestQueue := ⟨.new, (OutgoingRequests.new.register (.string "a") 0).register (.string "b") 1⟩

def hover (id : String) : Op := .route (.request ⟨.string id, "textDocument/hover", none⟩)

/-- The side that works on them. -/
def working : Connection ℕ := run (.new []) [hover "a", hover "b"]

theorem cancel_agrees_waiting :
    CancelsHere waiting (waiting.cancel (.string "a")).2 (.string "a") ∧
      Carried cancelSerde (.notification (cancelNotification (.string "a"))) ∧
      (working.route (.notification (cancelNotification (.string "a")))).2.2.tokens.IsCancelled ⟨1, [0]⟩ ∧
      ¬ (working.route (.notification (cancelNotification (.string "a")))).2.2.tokens.IsCancelled
        ⟨2, [0]⟩ := by
  obtain ⟨hhere, hcarried, hthere⟩ := (@cancel_agrees ℕ ℕ cancelSerde).2.1 waiting
    (waiting.cancel (.string "a")).2 (.string "a") true rfl
  have hmade : Made working [⟨2, [0]⟩, ⟨1, [0]⟩, ⟨0, []⟩] :=
    made_step (made_step (.new []) (hover "a")) (hover "b")
  refine ⟨hhere, hcarried ⟨⟨cancelText, by decide⟩, rfl, rfl⟩, ?_, ?_⟩
  · exact ((hthere working).made _ hmade _ (by simp)).mpr (.inr rfl)
  · rw [(hthere working).made _ hmade _ (by simp)]
    decide

end LspServerTokio.CancelWire
