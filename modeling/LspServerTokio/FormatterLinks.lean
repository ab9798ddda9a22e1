import LspServerTokio.FormatterMain
import LspServerTokio.Link

namespace LspServerTokio.FormatterServer

open Foundation Foundation.Wire Link Handshake

variable {υ ω : Type} [DecidableEq υ] {serde : SerdeJson} {lib : MainLibrary υ}
  {timer takes : Option ℕ} {delayFirst : ℕ → Bool} {toServer toClient : Link} {ending : MainEnd υ}
  {c : Connection ω}

/-- The program, and a client that two links join with it. The stream brings what has been received, and
perhaps an error behind it. -/
structure Joined (serde : SerdeJson) (lib : MainLibrary υ) (timer takes : Option ℕ)
    (delayFirst : ℕ → Bool) (toServer toClient : Link) (ending : MainEnd υ) (c : Connection ω) :
    Prop where
  reached_to : ∃ as, Reached serde as toServer
  reached_from : ∃ as, Reached serde as toClient
  faithful_to : ∀ m ∈ toServer.sent, Faithful serde m
  faithful_from : ∀ m ∈ toClient.sent, Faithful serde m
  main : ∃ errors : List IoError, main lib timer delayFirst (LifecycleOrder.start
    (toServer.received ++ errors.map .error) takes : Connection ω) = .ok (ending, c)
  sent : toClient.sent <+: c.outbound.sent

/-- The messages among received items. -/
def arrived (link : Link) : List Message := link.received.filterMap Except.toOption

theorem requests_normalize (messages : List Message) :
    (requests (messages.map Message.normalize)).map (fun req ↦ some req.id) =
      (requests messages).map fun req ↦ some req.id := by
  induction messages with
  | nil => rfl
  | cons message messages ih =>
    rw [List.map_cons, ← List.singleton_append, requests_append, List.map_append, ih,
      ← List.singleton_append, requests_append, List.map_append]
    cases message <;> rfl

theorem responses_normalize (messages : List Message) :
    (responses (messages.map Message.normalize)).map (·.id) = (responses messages).map (·.id) := by
  induction messages with
  | nil => rfl
  | cons message messages ih =>
    rw [List.map_cons, ← List.singleton_append, responses_append, List.map_append, ih,
      ← List.singleton_append, responses_append, List.map_append]
    cases message <;> rfl

/-- Nothing is on its way any more. -/
structure Quiet (serde : SerdeJson) (link : Link) : Prop where
  running : link.running = true
  stuck : ∀ a : Action Message, a.Carries → step (framing serde) link a = none

section Arrived

variable {link : Link}

theorem arrived_isPrefix (h : ∃ as, Reached serde as link)
    (hfaithful : ∀ m ∈ link.sent, Faithful serde m) :
    arrived link <+: link.sent.map Message.normalize := by
  obtain ⟨as, h⟩ := h
  obtain ⟨hpre, -⟩ := received_isPrefix (LspCodec.poll_new_nil serde) (inOrder_of_reached h)
    fun m hm ↦ frames_of_faithful (hfaithful m hm)
  have harrived := hpre.filterMap Except.toOption
  rw [List.filterMap_map] at harrived
  rw [← List.filterMap_eq_map]
  exact harrived

theorem received_of_quiet (h : ∃ as, Reached serde as link)
    (hfaithful : ∀ m ∈ link.sent, Faithful serde m) (hquiet : Quiet serde link) :
    link.received = (link.sent.map Message.normalize).map .ok := by
  obtain ⟨as, h⟩ := h
  rw [List.map_map]
  exact received_all (LspCodec.poll_new_nil serde) (inOrder_of_reached h)
    (fun m hm ↦ frames_of_faithful (hfaithful m hm)) hquiet.running hquiet.stuck

theorem filterMap_ok (messages : List Message) :
    (messages.map (Except.ok (ε := IoError))).filterMap Except.toOption = messages := by
  rw [List.filterMap_map]
  exact List.filterMap_some

theorem arrived_of_quiet (h : ∃ as, Reached serde as link)
    (hfaithful : ∀ m ∈ link.sent, Faithful serde m) (hquiet : Quiet serde link) :
    arrived link = link.sent.map Message.normalize := by
  rw [arrived, received_of_quiet h hfaithful hquiet, filterMap_ok]

end Arrived

theorem messages_with_errors (items : List Item) (errors : List IoError) :
    (items ++ errors.map Except.error).filterMap Except.toOption =
      items.filterMap Except.toOption := by
  have herrors : (errors.map Except.error).filterMap (Except.toOption (α := Message)) = [] := by
    rw [List.filterMap_map]
    exact List.filterMap_eq_nil_iff.mpr fun _ _ ↦ rfl
  rw [List.filterMap_append, herrors, List.append_nil]

/-- The requests that have arrived are those that the program has answered, and those that it has left
in the stream. -/
theorem Joined.accounts (h : Joined serde lib timer takes delayFirst toServer toClient ending c) :
    ∃ sent, c.outbound.sent = takes.elim sent (fun n ↦ sent.take n) ∧
      (responses sent).map (·.id) ++ requestedIds c.receiver =
        (requests (arrived toServer)).map fun req ↦ some req.id := by
  obtain ⟨errors, hmain⟩ := h.main
  obtain ⟨consumed, sent, hsplit, hsent, hids⟩ := main_sends hmain
  refine ⟨sent, hsent, ?_⟩
  rw [hids, ← requestedIds_append, ← hsplit, requestedIds, messages_with_errors]
  rfl

section Sample

def sampleEarly : Request := ⟨.integer ⟨1, one_isI32⟩, "shutdown", none⟩

def rejection : Message := Connection.notInitialized sampleEarly.id

def rejectionText : Bytes := Text.utf8Bytes ("\x7b\"jsonrpc\":\"2.0\",\"id\":1,\"error\":" ++
  "\x7b\"code\":-32002,\"message\":\"Server not yet initialized\"\x7d\x7d").toList

/-- What serde_json does with a request that comes too early, and with its rejection. -/
def rejectionSerde : SerdeJson where
  toVec
    | .object [("jsonrpc", .string "2.0"), ("id", .number (.posInt ⟨1, _⟩)), ("error", .object
        [("code", .number (.negInt ⟨-32002, _⟩)), ("message", .string "Server not yet initialized")])] =>
      .ok ⟨rejectionText, by decide⟩
    | j => LspCodec.shutdownSerde.toVec j
  fromSlice bytes :=
    if bytes = rejectionText then .ok rejection.serialize else LspCodec.shutdownSerde.fromSlice bytes

theorem inverse_sampleEarly :
    ∀ m ∈ [Message.request sampleEarly], rejectionSerde.Inverse m.serialize := by
  intro m hm
  rw [List.mem_singleton.mp hm]
  exact ⟨⟨LspCodec.shutdownText, by decide⟩, rfl, rfl⟩

theorem inverse_rejection : ∀ m ∈ [rejection], rejectionSerde.Inverse m.serialize := by
  intro m hm
  rw [List.mem_singleton.mp hm]
  exact ⟨⟨rejectionText, by decide⟩, rfl, rfl⟩

/-- A client that only sends a request, and gets its rejection. -/
theorem joined_early : Joined rejectionSerde sampleMain none none (fun _ ↦ true)
    (delivered [.request sampleEarly]) (delivered [rejection]) (.initializationFailed .disconnected)
    ({ (LifecycleOrder.start [] none).pushing [rejection] with receiver := [] } : Connection ℕ) where
  reached_to := reached_delivered inverse_sampleEarly
  reached_from := reached_delivered inverse_rejection
  faithful_to m hm := faithful_of_inverse (inverse_sampleEarly m hm)
  faithful_from m hm := faithful_of_inverse (inverse_rejection m hm)
  main := ⟨[], rfl⟩
  sent := List.prefix_rfl

theorem quiet_delivered {ms : List Message} : Quiet serde (delivered ms) := by
  refine ⟨rfl, fun a ha ↦ ?_⟩
  cases a with
  | send message => exact ha.elim
  | take => rfl
  | write n => exact if_neg fun h ↦ Nat.not_lt_of_le h.2.2 h.2.1
  | fail => exact ha.elim
  | read n => exact if_neg fun h ↦ Nat.not_lt_of_le h.2 h.1

end Sample

/-- Whatever the client sends, and however the steps of both links are mixed, cut short or broken off,
the client gets at most one response for each of its requests, in the order of the requests, with their
ids, and no other response. -/
theorem conversation (h : Joined serde lib timer takes delayFirst toServer toClient ending c) :
    (responses (arrived toClient)).map (·.id) <+:
      (requests toServer.sent).map fun req ↦ some req.id := by
  obtain ⟨sent, hsent, hids⟩ := h.accounts
  calc (responses (arrived toClient)).map (·.id)
      <+: (responses (toClient.sent.map Message.normalize)).map (·.id) :=
        ((arrived_isPrefix h.reached_from h.faithful_from).filterMap _).map _
    _ = (responses toClient.sent).map (·.id) := responses_normalize _
    _ <+: (responses c.outbound.sent).map (·.id) := (h.sent.filterMap _).map _
    _ <+: (responses sent).map (·.id) := by
        rw [hsent]
        exact ((prefix_of_takes takes sent).filterMap _).map _
    _ <+: (requests (arrived toServer)).map (fun req ↦ some req.id) := by
        rw [← hids]
        exact List.prefix_append _ _
    _ <+: (requests (toServer.sent.map Message.normalize)).map (fun req ↦ some req.id) :=
        ((arrived_isPrefix h.reached_to h.faithful_to).filterMap _).map _
    _ = (requests toServer.sent).map fun req ↦ some req.id := requests_normalize _

theorem conversation_early :
    (responses (arrived (delivered [rejection]))).map (·.id) <+:
      (requests (delivered [.request sampleEarly]).sent).map fun req ↦ some req.id :=
  conversation joined_early

/-- If nothing breaks off and nothing is left on the way, then the client has got a response for every
request, except for those that the program has left in the stream. -/
theorem conversation_complete
    (h : Joined serde lib timer none delayFirst toServer toClient ending c)
    (hto : Quiet serde toServer) (hfrom : Quiet serde toClient)
    (hsent : toClient.sent = c.outbound.sent) :
    (responses (arrived toClient)).map (·.id) ++ requestedIds c.receiver =
      (requests toServer.sent).map fun req ↦ some req.id := by
  obtain ⟨sent, hsent', hids⟩ := h.accounts
  rw [arrived_of_quiet h.reached_from h.faithful_from hfrom, responses_normalize, hsent, hsent',
    ← requests_normalize, ← arrived_of_quiet h.reached_to h.faithful_to hto]
  exact hids

theorem conversation_complete_early :
    (responses (arrived (delivered [rejection]))).map (·.id) ++ requestedIds [] =
      (requests (delivered [.request sampleEarly]).sent).map fun req ↦ some req.id :=
  conversation_complete joined_early quiet_delivered quiet_delivered rfl

end LspServerTokio.FormatterServer
