import Mathlib.Algebra.Order.BigOperators.Group.List
import LspServerTokio.FormatterRuns
import LspServerTokio.Grammar
import LspServerTokio.Initialize

namespace LspServerTokio.FormatterServer

open Foundation Cancellation Handshake LifecycleOrder Initialize

/-- What `main` uses besides. The information about the client is its text in the log. -/
structure MainLibrary (υ : Type) extends Library υ where
  serverCapabilities : Except String Value
  clientInfo : Value → Option String

/-- How `main` ends. -/
inductive MainEnd (υ : Type)
  | capabilitiesFailed (err : String)
  | initializationFailed (e : ProtocolError)
  | served (ending : ServerEnd) (state : ServerState υ)

section Main

variable {υ ω : Type} (lib : MainLibrary υ)

def logClient (c : Connection ω) (params : Value) : Connection ω :=
  match lib.clientInfo params with
  | some info => logMessage lib.toLibrary c .info ("Client initialized: " ++ info)
  | none => c

/-- `main`, from the connection that it makes. -/
def main [DecidableEq υ] (timer : Option ℕ) (delayFirst : ℕ → Bool) (c : Connection ω) :
    Except TextPanic (MainEnd υ × Connection ω) :=
  match lib.serverCapabilities with
  | .error err => .ok (.capabilitiesFailed err, c)
  | .ok capabilities =>
    match c.initializeHandshake capabilities timer with
    | (.error e, c) => .ok (.initializationFailed e, c)
    | (.ok params, c) => do
      let (ending, c, state) ← runServer lib.toLibrary delayFirst (logClient lib c.clientSender params)
      return (.served ending state, c)

end Main

section Conversation

variable {υ ω : Type} {lib : MainLibrary υ} {receiver : List Item} {takes timer : Option ℕ}
  {delayFirst : ℕ → Bool} {capabilities : Value}

/-- The log message about the client, if it can be written. -/
def greeting (lib : MainLibrary υ) (r : Request) : List Message :=
  match lib.clientInfo (r.params.getD .null) with
  | some info => logged lib.toLibrary .info ("Client initialized: " ++ info)
  | none => []

theorem responses_greeting (r : Request) : responses (greeting lib r) = [] := by
  unfold greeting
  split
  · exact responses_logged _ _
  · rfl

/-- The connection that `run_server` starts with. -/
def opened (lib : MainLibrary υ) (takes : Option ℕ) (capabilities : Value) (early : List Item)
    (r : Request) (late rest : List Item) : Connection ω :=
  { (start rest takes).pushing (handshakeMessages early r capabilities late ++ greeting lib r) with
    lifecycleState := .running, responseMap := some .new }

theorem serving_opened (lib : MainLibrary υ) (takes : Option ℕ) (capabilities : Value)
    (early : List Item) (r : Request) (late rest : List Item) :
    Serving (opened lib takes capabilities early r late rest : Connection ω) (.new : Session υ) := by
  have hnew : Serving (Connection.new rest : Connection ω) (.new : Session υ) := serving_new rest
  exact ⟨⟨hnew.registry.root, hnew.registry.size_pos, hnew.registry.cancelled_lt, hnew.registry.entry⟩,
    hnew.token, iff_of_false nofun nofun⟩

theorem logClient_eq (early : List Item) (r : Request) (late rest : List Item) :
    logClient lib ({ (start receiver takes).pushing (handshakeMessages early r capabilities late) with
      lifecycleState := .running, receiver := rest } : Connection ω).clientSender
        (r.params.getD .null) = opened lib takes capabilities early r late rest := by
  unfold logClient opened greeting
  split
  · rw [logMessage_eq, ← Connection.pushing_pushing]
    rfl
  · rw [List.append_nil]
    rfl

variable [DecidableEq υ]

theorem main_of_opening {early : List Item} {r : Request} {late : List Item} {n : Notification}
    {rest : List Item} (delayFirst : ℕ → Bool) (hcapabilities : lib.serverCapabilities = .ok capabilities)
    (h : Opening receiver takes timer capabilities early r late n rest) :
    main lib timer delayFirst (start receiver takes : Connection ω) =
      (runServer lib.toLibrary delayFirst (opened lib takes capabilities early r late rest)).map
        fun (ending, c, state) ↦ (.served ending state, c) := by
  have hhandshake : (start receiver takes : Connection ω).initializeHandshake capabilities timer =
      (.ok (r.params.getD .null), _) :=
    initializeHandshake_eq_ok.mpr ⟨early, r, late, n, rest, h, rfl, rfl⟩
  unfold main
  simp only [hcapabilities, hhandshake]
  rw [logClient_eq]
  rcases runServer lib.toLibrary delayFirst
    (opened lib takes capabilities early r late rest : Connection ω) with e | ⟨ending, c, state⟩ <;> rfl

/-- After an opening `main` goes on with the rest of the stream; without one it only answers
requests. -/
theorem main_cases (receiver : List Item) (timer takes : Option ℕ) (delayFirst : ℕ → Bool)
    (hcapabilities : lib.serverCapabilities = .ok capabilities) :
    (∃ early r late n rest, Opening receiver takes timer capabilities early r late n rest ∧
      main lib timer delayFirst (start receiver takes : Connection ω) =
        (runServer lib.toLibrary delayFirst (opened lib takes capabilities early r late rest)).map
          fun (ending, c, state) ↦ (.served ending state, c)) ∨
    (¬ ∃ early r late n rest, Opening receiver takes timer capabilities early r late n rest) ∧
      ∃ e c', main lib timer delayFirst (start receiver takes : Connection ω) =
          .ok (.initializationFailed e, c') ∧ Answers (start receiver takes) receiver [] c' [] := by
  by_cases hopening : ∃ early r late n rest,
      Opening receiver takes timer capabilities early r late n rest
  · obtain ⟨early, r, late, n, rest, h⟩ := hopening
    exact .inl ⟨early, r, late, n, rest, h, main_of_opening delayFirst hcapabilities h⟩
  · have hanswers := initializeHandshake_answers (start receiver takes : Connection ω) capabilities timer
    rcases h : (start receiver takes : Connection ω).initializeHandshake capabilities timer with
      ⟨e | params, c⟩
    · rw [h] at hanswers
      exact .inr ⟨hopening, e, c, by simp only [main, hcapabilities, h], hanswers⟩
    · obtain ⟨early, r, late, n, rest, h, -, -⟩ := initializeHandshake_eq_ok.mp h
      exact absurd ⟨early, r, late, n, rest, h⟩ hopening

theorem messagesOf_sublist (received : List Item) :
    (messagesOf received).Sublist (received.filterMap Except.toOption) :=
  (List.takeWhile_sublist _).filterMap _

/-- The texts fit in the session behind an opening. -/
def TextsFitBehind (lib : MainLibrary υ) (receiver : List Item) (takes timer : Option ℕ) : Prop :=
  ∀ capabilities early r late n rest, lib.serverCapabilities = .ok capabilities →
    Opening receiver takes timer capabilities early r late n rest → TextsFit lib.toLibrary rest

/-- Texts that are small enough together fit, whatever the server makes of them. -/
theorem textsFitBehind_of_sum
    (h : ((receiver.filterMap Except.toOption).map (messageBytes lib.toLibrary)).sum < 2 ^ 32)
    (takes timer : Option ℕ) : TextsFitBehind lib receiver takes timer := by
  intro capabilities early r late n rest _ hopening
  have hsublist : (messagesOf rest).Sublist (receiver.filterMap Except.toOption) := by
    refine (messagesOf_sublist rest).trans (List.Sublist.filterMap _ ?_)
    rw [hopening.received]
    exact ((List.sublist_cons_self _ _).trans (List.sublist_append_right _ _)).trans
      ((List.sublist_cons_self _ _).trans (List.sublist_append_right _ _))
  exact textsFit_of_sum (((hsublist.map _).sum_le_sum fun _ _ ↦ Nat.zero_le _).trans_lt h)

theorem responses_rejections (items : List Item) :
    (responses (rejections items)).map (·.id) = requestedIds items := by
  induction items with
  | nil => rfl
  | cons item items ih =>
    rw [rejections_cons, responses_append, List.map_append, ih]
    rcases item with e | r | r | n <;> rfl

theorem responses_handshake (early : List Item) (r : Request) (late : List Item) (n : Notification) :
    (responses (handshakeMessages early r capabilities late)).map (·.id) =
      requestedIds (early ++ .ok (.request r) :: (late ++ [.ok (.notification n)])) := by
  have hrequest : requestedIds (.ok (.request r) :: (late ++ [.ok (.notification n)])) =
      some r.id :: requestedIds late := by
    rw [← List.singleton_append, requestedIds_append, requestedIds_append]
    exact congrArg (some r.id :: ·) (List.append_nil _)
  rw [handshakeMessages, responses_append, List.map_append, responses_rejections,
    requestedIds_append, hrequest]
  exact congrArg (fun ids ↦ _ ++ some r.id :: ids) (responses_rejections late)

theorem responses_map_response (sent : List Response) : responses (sent.map .response) = sent := by
  rw [responses, List.filterMap_map]
  exact List.filterMap_some

theorem prefix_of_takes (takes : Option ℕ) (sent : List Message) :
    takes.elim sent (fun n ↦ sent.take n) <+: sent := by
  rcases takes with _ | n
  · exact List.prefix_rfl
  · exact List.take_prefix n sent

/-- What the program sends, whatever a client sends and whether the channel stays open or not. A
closed channel only cuts off what is sent after its end. -/
theorem main_sends {ending : MainEnd υ} {c' : Connection ω}
    (hmain : main lib timer delayFirst (start receiver takes : Connection ω) = .ok (ending, c')) :
    ∃ consumed sent, receiver = consumed ++ c'.receiver ∧
      c'.outbound.sent = takes.elim sent (fun n ↦ sent.take n) ∧
      (responses sent).map (·.id) = requestedIds consumed := by
  rcases hcapabilities : lib.serverCapabilities with err | capabilities
  · simp only [main, hcapabilities] at hmain
    cases hmain
    refine ⟨[], [], rfl, ?_, rfl⟩
    rcases takes with _ | n
    · rfl
    · exact List.take_nil.symm
  · rcases main_cases (ω := ω) receiver timer takes delayFirst hcapabilities with
      ⟨early, r, late, n, rest, hopening, hserves⟩ |
      ⟨-, e, c, hfails, consumed, sent, hsplit, houtbound, hids⟩
    · rw [hserves, Grammar.map_eq_ok] at hmain
      obtain ⟨⟨ending, c, state⟩, hrun, he⟩ := hmain
      cases he
      obtain ⟨consumed, sent, hsplit, houtbound, hids⟩ :=
        runServer_answers (serving_opened (ω := ω) lib takes capabilities early r late rest) hrun
      have hrest : rest = consumed ++ c'.receiver := hsplit
      refine ⟨early ++ .ok (.request r) :: (late ++ [.ok (.notification n)]) ++ consumed,
        handshakeMessages early r capabilities late ++ greeting lib r ++ sent, ?_, ?_, ?_⟩
      · rw [hopening.received, hrest]
        simp only [List.append_assoc, List.cons_append, List.nil_append]
      · have hsent : c'.outbound = (⟨[], takes⟩ : Outbound).pushAll
            (handshakeMessages early r capabilities late ++ greeting lib r ++ sent) := by
          rw [houtbound, Outbound.pushAll_append]
          rfl
        rw [hsent, Outbound.sent_pushAll, List.nil_append]
      · rw [responses_append, responses_append, responses_greeting, List.append_nil, List.map_append,
          responses_handshake (n := n), hids, ← requestedIds_append]
    · rw [hfails] at hmain
      cases hmain
      refine ⟨consumed, sent.map .response, hsplit, ?_, ?_⟩
      · rw [houtbound, Outbound.sent_pushAll]
        exact List.nil_append _
      · rw [responses_map_response, ← List.nil_append (requestedIds consumed), hids, List.append_nil]

theorem main_ok (hfit : TextsFitBehind lib receiver takes timer) (delayFirst : ℕ → Bool) :
    ∃ ending c', main lib timer delayFirst (start receiver takes : Connection ω) =
      .ok (ending, c') := by
  rcases hcapabilities : lib.serverCapabilities with err | capabilities
  · exact ⟨.capabilitiesFailed err, start receiver takes, by simp only [main, hcapabilities]⟩
  · rcases main_cases (ω := ω) receiver timer takes delayFirst hcapabilities with
      ⟨early, r, late, n, rest, hopening, hserves⟩ | ⟨-, e, c, hfails, -⟩
    · obtain ⟨ending, c, state, hrun⟩ :=
        runServer_ok (serving_opened (ω := ω) lib takes capabilities early r late rest)
          (hfit capabilities early r late n rest hcapabilities hopening) delayFirst
      exact ⟨.served ending state, c, by rw [hserves, hrun]; rfl⟩
    · exact ⟨.initializationFailed e, c, hfails⟩

section Sample

def sampleMain : MainLibrary String where
  toLibrary := sampleLibrary
  serverCapabilities := .ok (.deserialize (.object
    [("documentFormattingProvider", .bool true), ("textDocumentSync", natural 2)]))
  clientInfo v :=
    match v.json with
    | .object [("capabilities", .object []), ("processId", .null)] => some "None"
    | _ => none

def sampleInitialize : Request where
  id := .string "i"
  method := "initialize"
  params := some (.deserialize (.object [("capabilities", .object []), ("processId", .null)]))

/-- A client that has asked for something too early. -/
def sampleConversation : List Item :=
  .ok (.request sampleShutdown) :: .ok (.request sampleInitialize) ::
    .ok (.notification ⟨"initialized", none⟩) :: sampleSession

theorem textsFitBehind_sampleConversation : TextsFitBehind sampleMain sampleConversation none none :=
  textsFitBehind_of_sum (by decide) none none

end Sample

/-- Each request that the program takes from the stream is answered exactly once, in the order of the
requests and with their ids. If the channel is closed on the way, then no more than those up to there
are, and none for anything else. -/
theorem main_answers (lib : MainLibrary υ) (timer takes : Option ℕ) (delayFirst : ℕ → Bool)
    (receiver : List Item) :
    (TextsFitBehind lib receiver takes timer → ∃ ending c',
      main lib timer delayFirst (start receiver takes : Connection ω) = .ok (ending, c')) ∧
    ∀ ending c', main lib timer delayFirst (start receiver takes : Connection ω) = .ok (ending, c') →
      ∃ consumed, receiver = consumed ++ c'.receiver ∧
        (responses c'.outbound.sent).map (·.id) <+: requestedIds consumed ∧
        (takes = none → (responses c'.outbound.sent).map (·.id) = requestedIds consumed) := by
  refine ⟨fun hfit ↦ main_ok hfit delayFirst, fun ending c' hmain ↦ ?_⟩
  obtain ⟨consumed, sent, hsplit, hsent, hids⟩ := main_sends hmain
  refine ⟨consumed, hsplit, ?_, ?_⟩
  · rw [hsent, ← hids]
    exact ((prefix_of_takes takes sent).filterMap _).map _
  · rintro rfl
    rw [hsent, ← hids]
    rfl

theorem main_answers_session :
    ∃ ending c' consumed, main sampleMain none (fun _ ↦ true)
        (start sampleConversation none : Connection ℕ) = .ok (ending, c') ∧
      sampleConversation = consumed ++ c'.receiver ∧
      (responses c'.outbound.sent).map (·.id) = requestedIds consumed := by
  obtain ⟨hok, hanswers⟩ := main_answers (ω := ℕ) sampleMain none none (fun _ ↦ true) sampleConversation
  obtain ⟨ending, c', hmain⟩ := hok textsFitBehind_sampleConversation
  obtain ⟨consumed, hsplit, -, hids⟩ := hanswers ending c' hmain
  exact ⟨ending, c', consumed, hmain, hsplit, hids rfl⟩

end Conversation

end LspServerTokio.FormatterServer
