import LspServerTokio.FormatterServer

namespace LspServerTokio.FormatterServer

open Foundation Cancellation

/-- A formatter without a connection: what it answers depends on the open documents, and on whether
the shutdown has been requested. -/
structure Session (υ : Type) where
  state : ServerState υ
  down : Bool

variable {υ ω : Type} (lib : Library υ)

def uppercaseEdits (content : List Char) : List TextEdit :=
  match createUppercaseEdit lib.toUppercase content with
  | .ok edits => edits
  | .error _ => []

/-- What a notification makes of the documents, unless it stops the program. -/
def noted [DecidableEq υ] (state : ServerState υ) (notif : Notification) : ServerState υ :=
  match handleNotification lib.toNotificationParams state notif with
  | .ok state => state
  | .error _ => state

def logged (typ : MessageType) (text : String) : List Message :=
  match lib.logMessageParams typ text with
  | .ok value => [.notification ⟨"window/logMessage", some value⟩]
  | .error _ => []

namespace Session

def new : Session υ := ⟨.new, false⟩

variable (s : Session υ)

def format (uri : υ) (delayFirst : Bool) : List Message × Except FormatError (List TextEdit) :=
  match s.state.documents uri with
  | none => ([], .error .documentNotFound)
  | some doc =>
    let beginning := logged lib .log ("Formatting document: " ++ lib.debugUri uri)
    if s.down then
      (beginning ++ if delayFirst then [] else logged lib .log "Formatting cancelled",
        .error .cancelled)
    else
      let edits := uppercaseEdits lib doc.content
      (beginning ++ logged lib .log ("Formatting complete: " ++ toString edits.length ++ " edits"),
        .ok edits)

/-- The log messages for a request, and its response. -/
def answer (req : Request) (delayFirst : Bool) : List Message × Response :=
  if req.method = shutdownMethod then ([], .ok req.id .null)
  else if req.method = "textDocument/formatting" then
    match req.params.bind lib.documentFormatting with
    | none => ([], .err req.id (.new .invalidParams "Invalid formatting params"))
    | some params =>
      let (messages, result) := s.format lib params.textDocument.uri delayFirst
      (messages, formattingResponse lib req.id result)
  else ([], methodNotFoundResponse req)

def next [DecidableEq υ] : Message → Session υ
  | .request req => if req.method = shutdownMethod then { s with down := true } else s
  | .notification notif => { s with state := noted lib s.state notif }
  | .response _ => s

def checkFormat (uri : υ) : Except TextPanic Unit :=
  match s.state.documents uri with
  | none => .ok ()
  | some doc =>
    if s.down then .ok ()
    else (createUppercaseEdit lib.toUppercase doc.content).map fun _ ↦ ()

/-- A message stops the program if positions in a text overflow while they are counted. -/
def check [DecidableEq υ] : Message → Except TextPanic Unit
  | .request req =>
    if req.method = "textDocument/formatting" then
      (req.params.bind lib.documentFormatting).elim (.ok ()) fun params ↦
        s.checkFormat lib params.textDocument.uri
    else .ok ()
  | .notification notif =>
    (handleNotification lib.toNotificationParams s.state notif).map fun _ ↦ ()
  | .response _ => .ok ()

end Session

/-- The session ends with what the receiver brings here. -/
def Ends : Except IoError Message → Prop
  | .error _ => True
  | .ok (.notification notif) => notif.method = exitMethod
  | .ok _ => False

instance : DecidablePred Ends
  | .error _ => isTrue trivial
  | .ok (.notification notif) => inferInstanceAs (Decidable (notif.method = exitMethod))
  | .ok (.request _) | .ok (.response _) => isFalse not_false

/-- The messages that the session answers or takes note of. -/
def messagesOf (received : List (Except IoError Message)) : List Message :=
  (received.takeWhile (¬ Ends ·)).filterMap Except.toOption

def endingOf (received : List (Except IoError Message)) (s : Session υ) : ServerEnd :=
  match received.dropWhile (¬ Ends ·) with
  | [] => .disconnected
  | .error e :: _ => .receiveFailed e
  | .ok _ :: _ => .exit (if s.down then .success else .error)

namespace Session

variable (s : Session υ)

def react (delayFirst : Bool) : Message → List Message
  | .request req =>
    (s.answer lib req delayFirst).1 ++ [.response (s.answer lib req delayFirst).2]
  | .notification _ | .response _ => []

/-- Only a request other than the shutdown asks whether its delay comes first. -/
def shift (delayFirst : ℕ → Bool) : Message → ℕ → Bool
  | .request req => if req.method = shutdownMethod then delayFirst else fun n ↦ delayFirst (n + 1)
  | .notification _ | .response _ => delayFirst

def outputs [DecidableEq υ] : (ℕ → Bool) → Session υ → List Message → List Message
  | _, _, [] => []
  | delayFirst, s, message :: messages =>
    s.react lib (delayFirst 0) message ++ outputs (shift delayFirst message) (s.next lib message) messages

/-- The first message that stops the program, if there is one. -/
def checks [DecidableEq υ] : Session υ → List Message → Except TextPanic Unit
  | _, [] => .ok ()
  | s, message :: messages => do
    s.check lib message
    checks (s.next lib message) messages

/-- A response for which there is no room in the channel. The shutdown asks for none. -/
def Refuses (outbound : Outbound) (delayFirst : Bool) : Message → Prop
  | .request req => req.method ≠ shutdownMethod ∧
      (outbound.pushAll (s.answer lib req delayFirst).1).takes = some 0
  | .notification _ | .response _ => False

def final [DecidableEq υ] (s : Session υ) (messages : List Message) : Session υ :=
  messages.foldl (fun s message ↦ s.next lib message) s

end Session

/-- The connection is that of a session, as far as the session depends on it. -/
structure Serving (c : Connection ω) (s : Session υ) : Prop where
  registry : Registry c
  token : c.tokens.IsCancelled c.shutdownToken ↔ s.down = true
  lifecycle : c.lifecycleState = .shuttingDown ↔ s.down = true

section Serving

variable {lib} {c : Connection ω} {s : Session υ}

theorem logMessage_eq (c : Connection ω) (typ : MessageType) (text : String) :
    logMessage lib c typ text = c.pushing (logged lib typ text) := by
  rcases h : lib.logMessageParams typ text with e | value
  · simp only [logMessage, logged, h, Connection.pushing_nil]
  · simp only [logMessage, logged, h, c.notify_eq_pushing]

theorem serving_new (receiver : List (Except IoError Message)) :
    Serving (Connection.new receiver : Connection ω) (.new : Session υ) := by
  refine ⟨registry_new receiver ⟨[], none⟩, iff_of_false ?_ nofun, iff_of_false nofun nofun⟩
  change ¬ Tokens.empty.new.2.IsCancelled Tokens.empty.new.1
  decide

/-- Sending has no part in what the session depends on. -/
theorem Serving.pushing (h : Serving c s) (messages : List Message) : Serving (c.pushing messages) s :=
  ⟨⟨h.registry.root, h.registry.size_pos, h.registry.cancelled_lt, h.registry.entry⟩, h.token,
    h.lifecycle⟩

/-- An operation that does not shut down leaves the shutdown token as it is. -/
theorem Serving.step (h : Serving c s) (op : Op) (hop : ¬ op.ShutsDown)
    (hlifecycle : (step c op).lifecycleState = c.lifecycleState) : Serving (step c op) s := by
  refine ⟨registry_step h.registry op, ?_, hlifecycle ▸ h.lifecycle⟩
  have htoken := isCancelled_shutdownToken h.registry [op]
  rw [step_shutdownToken]
  refine (htoken.trans (or_iff_right ?_)).trans h.token
  simpa using hop

theorem Serving.route (h : Serving c s) (message : Message) : Serving (c.route message).2.2 s :=
  h.step (.route message) not_false (c.route_keeps message).2

theorem Serving.complete (h : Serving c s) (id : RequestId) : Serving (c.completeIncoming id).2 s :=
  h.step (.complete id) not_false rfl

theorem Serving.shutdown (h : Serving c s) (id : RequestId) :
    Serving (c.handleShutdown id).2 { s with down := true } := by
  refine ⟨registry_step h.registry (.handleShutdown id), iff_of_true ?_ rfl,
    iff_of_true (handleShutdown_keeps c id).2.2.2 rfl⟩
  have htoken := isCancelled_shutdownToken h.registry [.handleShutdown id]
  rw [(handleShutdown_keeps c id).2.2.1]
  exact htoken.mpr (.inl ⟨_, List.mem_singleton_self _, trivial⟩)

/-- The token that comes with a request is cancelled exactly after the shutdown, whatever has been
cancelled before. -/
theorem Serving.token_of_request (h : Serving c s) (req : Request) :
    (c.route (.request req)).2.2.tokens.IsCancelled (c.tokens.child c.shutdownToken).1 ↔
      s.down = true := by
  have hfresh : c.tokens.size ∉ c.tokens.cancelled := fun hn ↦
    (h.registry.cancelled_lt _ hn).false
  exact (Tokens.isCancelled_new_child _ hfresh).trans h.token

end Serving

section Steps

variable {lib} {c : Connection ω} {s : Session υ} {bound : ℕ}

theorem formatDocument_eq {token : Token} (htoken : c.tokens.IsCancelled token ↔ s.down = true)
    (params : DocumentFormattingParams υ) (delayFirst : Bool) :
    formatDocument lib c s.state params token delayFirst =
      (s.checkFormat lib params.textDocument.uri).map fun _ ↦
        ((s.format lib params.textDocument.uri delayFirst).2,
          c.pushing (s.format lib params.textDocument.uri delayFirst).1) := by
  have hkeep : ∀ messages, (c.pushing messages).tokens = c.tokens := fun _ ↦ rfl
  unfold formatDocument Session.format Session.checkFormat
  rcases hdoc : s.state.documents params.textDocument.uri with _ | doc
  · simp only [hdoc, Connection.pushing_nil]
    rfl
  · simp only [hdoc, logMessage_eq, hkeep, htoken, Connection.pushing_pushing]
    rcases hdown : s.down with _ | _
    · rcases hedits : createUppercaseEdit lib.toUppercase doc.content with e | edits
      · rfl
      · simp only [uppercaseEdits, hedits]
        rfl
    · cases delayFirst
      · rfl
      · simp [Except.map]

theorem checkFormat_ok (lib : Library υ) {uri : υ} (h : ∀ doc, s.state.documents uri = some doc →
    (Text.utf8Bytes doc.content).length < 2 ^ 32) : s.checkFormat lib uri = .ok () := by
  unfold Session.checkFormat
  rcases hdoc : s.state.documents uri with _ | doc
  · rfl
  · obtain ⟨edits, hedits, -⟩ := createUppercaseEdit_applied lib.toUppercase doc (h doc hdoc)
    simp only [hedits]
    split_ifs <;> rfl

theorem handleRequest_eq [DecidableEq υ] (lib : Library υ) {token : Token}
    (htoken : c.tokens.IsCancelled token ↔ s.down = true) {req : Request}
    (hreq : req.method ≠ shutdownMethod) (delayFirst : Bool) :
    handleRequest lib c s.state req token delayFirst =
      (s.check lib (.request req)).map fun _ ↦
        ((s.answer lib req delayFirst).2, c.pushing (s.answer lib req delayFirst).1) := by
  simp only [handleRequest, Session.answer, Session.check, if_neg hreq]
  split_ifs with hm
  · rcases req.params.bind lib.documentFormatting with _ | params
    · rfl
    · dsimp only [Option.elim_some]
      rw [formatDocument_eq htoken]
      rcases s.checkFormat lib params.textDocument.uri with e | _ <;> rfl
  · rfl

variable [DecidableEq υ]

theorem handleNotification_of_cancelRequest (lib : Library υ) {notif : Notification}
    (h : notif.method = cancelRequestMethod) (state : ServerState υ) :
    handleNotification lib.toNotificationParams state notif = .ok state := by
  simp [handleNotification_op, documentOp, h, cancelRequestMethod]

theorem method_of_cancelled {n : Notification} {id : RequestId} (h : cancelled n = some id) :
    n.method = cancelRequestMethod := by
  unfold cancelled at h
  split_ifs at h with hm
  exact hm

/-- The bytes of the texts that a message brings. -/
def messageBytes (lib : Library υ) : Message → ℕ
  | .notification notif => byteLength lib.toNotificationParams notif
  | .request _ | .response _ => 0

/-- Whenever a message comes, each document leaves room for the texts that it brings. -/
def Fits (lib : Library υ) (s : Session υ) (messages : List Message) : Prop :=
  ∀ before message after, messages = before ++ message :: after →
    ∀ uri doc, (s.final lib before).state.documents uri = some doc →
      (Text.utf8Bytes doc.content).length + messageBytes lib message < 2 ^ 32

/-- A request `id` that is left in the table of the connection. -/
def Leaves (id : RequestId) : Message → Prop
  | .request req => req.id = id ∧ req.method = shutdownMethod
  | .notification _ | .response _ => False

def Requests (id : RequestId) : Message → Prop
  | .request req => req.id = id
  | .notification _ | .response _ => False

/-- What a message does to the connection of a session. -/
structure Served (lib : Library υ) (delayFirst : Bool) (c : Connection ω) (s : Session υ)
    (message : Message) (c' : Connection ω) : Prop where
  serving : Serving c' (s.next lib message)
  outbound : c'.outbound = c.outbound.pushAll (s.react lib delayFirst message)
  pending : ∀ id, (pending c' id).isSome ↔
    Leaves id message ∨ ¬ Requests id message ∧ (pending c id).isSome

theorem served_shutdown (h : Serving c s) {req : Request} (hreq : req.method = shutdownMethod)
    (delayFirst : Bool) : Served lib delayFirst c s (.request req)
      ((c.route (.request req)).2.2.handleShutdown req.id).2 := by
  refine ⟨?_, ?_, fun id ↦ ?_⟩
  · rw [Session.next, if_pos hreq]
    exact (h.route _).shutdown req.id
  · rw [Connection.handleShutdown_eq_pushing, Session.react, Session.answer, if_pos hreq]
    rfl
  · rw [(handleShutdown_keeps _ _).2.1, Leaves, Requests, and_iff_left hreq]
    change ((pending c).insert req.id _ id).isSome ↔ _
    by_cases hid : id = req.id
    · simp [hid]
    · simp [Table.insert_of_ne _ _ hid, Ne.symm hid]

theorem served_answer (lib : Library υ) (h : Serving c s) {req : Request}
    (hreq : req.method ≠ shutdownMethod) (delayFirst : Bool) : Served lib delayFirst c s (.request req)
      (((c.route (.request req)).2.2.pushing
        (s.react lib delayFirst (.request req))).completeIncoming req.id).2 := by
  refine ⟨?_, rfl, fun id ↦ ?_⟩
  · rw [Session.next, if_neg hreq]
    exact ((h.route _).pushing _).complete req.id
  · change (((pending c).insert req.id _).remove req.id id).isSome ↔ _
    simp only [Leaves, Requests, hreq, and_false, false_or, Table.remove]
    by_cases hid : id = req.id
    · simp [hid]
    · simp [hid, Table.insert_of_ne _ _ hid, Ne.symm hid]

/-- How the loop takes a message: as the session does, unless it stops the program or, with the channel
closed, ends the loop. -/
inductive Turn (lib : Library υ) (delayFirst : ℕ → Bool) (c : Connection ω) (s : Session υ)
    (message : Message) (rest : List (Except IoError Message)) :
    Except TextPanic (ServerEnd × Connection ω × ServerState υ) → Prop
  | panic {p : TextPanic} : s.check lib message = .error p →
      Turn lib delayFirst c s message rest (.error p)
  | refused {c' : Connection ω} : s.check lib message = .ok () →
      s.Refuses lib c.outbound (delayFirst 0) message →
      c'.outbound = c.outbound.pushAll (s.react lib (delayFirst 0) message) →
      c'.outbound.takes = some 0 → c'.receiver = rest →
      Turn lib delayFirst c s message rest (.ok (.respondFailed, c', s.state))
  | served {c' : Connection ω} : s.check lib message = .ok () →
      ¬ s.Refuses lib c.outbound (delayFirst 0) message →
      Served lib (delayFirst 0) c s message c' →
      Turn lib delayFirst c s message rest
        (serve lib (Session.shift delayFirst message) c' (s.next lib message).state rest)

section Turn

variable {delayFirst : ℕ → Bool} {message : Message} {rest : List (Except IoError Message)}
  {result : Except TextPanic (ServerEnd × Connection ω × ServerState υ)}

theorem Turn.of_panic (h : Turn lib delayFirst c s message rest result) {p : TextPanic}
    (hpanic : s.check lib message = .error p) : result = .error p := by
  cases h with
  | panic hcheck =>
    rw [hpanic] at hcheck
    cases hcheck
    rfl
  | refused hcheck | served hcheck =>
    rw [hpanic] at hcheck
    cases hcheck

theorem Turn.of_refused (h : Turn lib delayFirst c s message rest result)
    (hcheck : s.check lib message = .ok ())
    (hrefuses : s.Refuses lib c.outbound (delayFirst 0) message) :
    ∃ c', result = .ok (.respondFailed, c', s.state) ∧
      c'.outbound = c.outbound.pushAll (s.react lib (delayFirst 0) message) := by
  cases h with
  | panic hpanic =>
    rw [hcheck] at hpanic
    cases hpanic
  | refused _ _ houtbound => exact ⟨_, rfl, houtbound⟩
  | served _ hnot => exact absurd hrefuses hnot

theorem Turn.of_served (h : Turn lib delayFirst c s message rest result)
    (hcheck : s.check lib message = .ok ())
    (hrefuses : ¬ s.Refuses lib c.outbound (delayFirst 0) message) :
    ∃ c', Served lib (delayFirst 0) c s message c' ∧
      result = serve lib (Session.shift delayFirst message) c' (s.next lib message).state rest := by
  cases h with
  | panic hpanic =>
    rw [hcheck] at hpanic
    cases hpanic
  | refused _ hrefused => exact absurd hrefused hrefuses
  | served _ _ hserved => exact ⟨_, hserved, rfl⟩

end Turn

theorem turn_shutdown (h : Serving c s) {req : Request} (hreq : req.method = shutdownMethod)
    (delayFirst : ℕ → Bool) (rest : List (Except IoError Message)) :
    Turn lib delayFirst c s (.request req) rest
      (serve lib delayFirst c s.state (.ok (.request req) :: rest)) := by
  have hserve : serve lib delayFirst c s.state (.ok (.request req) :: rest) =
      serve lib (Session.shift delayFirst (.request req))
        ((c.route (.request req)).2.2.handleShutdown req.id).2 (s.next lib (.request req)).state
        rest := by
    rw [serve, Session.shift, Session.next, if_pos hreq, if_pos hreq]
    exact if_pos hreq
  have hcheck : s.check lib (.request req) = .ok () := by
    rw [Session.check, if_neg]
    rw [hreq]
    decide
  rw [hserve]
  exact .served hcheck (fun hrefuses ↦ hrefuses.1 hreq) (served_shutdown h hreq (delayFirst 0))

theorem turn_answer (h : Serving c s) {req : Request} (hreq : req.method ≠ shutdownMethod)
    (delayFirst : ℕ → Bool) (rest : List (Except IoError Message)) :
    Turn lib delayFirst c s (.request req) rest
      (serve lib delayFirst c s.state (.ok (.request req) :: rest)) := by
  have hroute : c.route (.request req) =
      (.request req (c.tokens.child c.shutdownToken).1, none, (c.route (.request req)).2.2) := rfl
  have hrequest := handleRequest_eq lib (c := (c.route (.request req)).2.2) (h.token_of_request req)
    hreq (delayFirst 0)
  rw [serve, hroute]
  dsimp only
  rw [if_neg hreq, hrequest]
  have hserved := served_answer lib h hreq (delayFirst 0)
  rw [Session.react, ← Connection.pushing_pushing] at hserved
  rcases hcheck : s.check lib (.request req) with p | _
  · exact .panic hcheck
  · simp only [Except.map, bind, Except.bind]
    by_cases hclosed : ((c.route (.request req)).2.2.pushing
        (s.answer lib req (delayFirst 0)).1).outbound.takes = some 0
    · rw [Connection.respond_of_closed _ hclosed]
      refine .refused hcheck ⟨hreq, hclosed⟩ ?_ hclosed rfl
      rw [Session.react, Outbound.pushAll_append]
      exact (Outbound.pushAll_of_closed hclosed _).symm
    · rw [Connection.respond_of_open _ hclosed]
      have hnext : s.next lib (.request req) = s := if_neg hreq
      have hshift : Session.shift delayFirst (.request req) = fun n ↦ delayFirst (n + 1) := if_neg hreq
      have hturn : Turn lib delayFirst c s (.request req) rest _ :=
        .served hcheck (fun hrefuses ↦ hclosed hrefuses.2) hserved
      rwa [hnext, hshift] at hturn

theorem turn_notification (h : Serving c s) {notif : Notification}
    (hexit : notif.method ≠ exitMethod) (delayFirst : ℕ → Bool) (rest : List (Except IoError Message)) :
    Turn lib delayFirst c s (.notification notif) rest
      (serve lib delayFirst c s.state (.ok (.notification notif) :: rest)) := by
  have hpending : ∀ id, (pending c id).isSome ↔ Leaves id (.notification notif) ∨
      ¬ Requests id (.notification notif) ∧ (pending c id).isSome := by
    simp [Leaves, Requests]
  have hrefuses : ¬ s.Refuses lib c.outbound (delayFirst 0) (.notification notif) := not_false
  rcases hn : cancelled notif with _ | id
  · rw [serve, c.route_of_not_cancelled hn]
    dsimp only
    rw [if_neg hexit]
    rcases hnotif : handleNotification lib.toNotificationParams s.state notif with p | state
    · exact .panic (by rw [Session.check, hnotif]; rfl)
    · have hnext : s.next lib (.notification notif) = { s with state } := by
        rw [Session.next, noted, hnotif]
      have hserved : Served lib (delayFirst 0) c s (.notification notif) c :=
        ⟨hnext ▸ ⟨h.registry, h.token, h.lifecycle⟩, rfl, hpending⟩
      have hturn : Turn lib delayFirst c s (.notification notif) rest _ :=
        .served (by rw [Session.check, hnotif]; rfl) hrefuses hserved
      rwa [hnext] at hturn
  · have hroute := h.route (.notification notif)
    have hnotif := handleNotification_of_cancelRequest lib (method_of_cancelled hn) s.state
    have hnext : s.next lib (.notification notif) = s := by
      rw [Session.next, noted, hnotif]
    rw [route_of_cancelled c hn] at hroute
    have hserved : Served lib (delayFirst 0) c s (.notification notif)
        { c with tokens := (c.requestQueue.incoming.cancel id c.tokens).2 } :=
      ⟨hnext.symm ▸ hroute, rfl, hpending⟩
    have hturn : Turn lib delayFirst c s (.notification notif) rest _ :=
      .served (by rw [Session.check, hnotif]; rfl) hrefuses hserved
    rw [hnext] at hturn
    rwa [serve, route_of_cancelled c hn]

theorem turn_response (h : Serving c s) (resp : Response) (delayFirst : ℕ → Bool)
    (rest : List (Except IoError Message)) :
    Turn lib delayFirst c s (.response resp) rest
      (serve lib delayFirst c s.state (.ok (.response resp) :: rest)) := by
  have hpending : pending (c.route (.response resp)).2.2 = pending c := (routeResponse_keeps c resp).2.1
  have hserve : serve lib delayFirst c s.state (.ok (.response resp) :: rest) =
      serve lib delayFirst (c.route (.response resp)).2.2 s.state rest := by
    rw [serve]
    rcases c.route_response resp with ⟨delivery, c', hroute⟩ | ⟨delivery, c', hroute⟩ <;>
      rw [hroute]
  rw [hserve]
  exact .served rfl not_false ⟨h.route _, (c.route_keeps _).1, by simp [Leaves, Requests, hpending]⟩

theorem serve_cons (lib : Library υ) (h : Serving c s) {message : Message}
    (hends : ¬ Ends (.ok message)) (delayFirst : ℕ → Bool) (rest : List (Except IoError Message)) :
    Turn lib delayFirst c s message rest (serve lib delayFirst c s.state (.ok message :: rest)) := by
  cases message with
  | request req =>
    by_cases hreq : req.method = shutdownMethod
    · exact turn_shutdown h hreq delayFirst rest
    · exact turn_answer h hreq delayFirst rest
  | notification notif => exact turn_notification h hends delayFirst rest
  | response resp => exact turn_response h resp delayFirst rest

/-- A message stops nothing if each document leaves room for the texts that it brings. -/
theorem check_ok {message : Message} (h : ∀ uri doc, s.state.documents uri = some doc →
    (Text.utf8Bytes doc.content).length + messageBytes lib message < 2 ^ 32) :
    s.check lib message = .ok () := by
  cases message with
  | request req =>
    rw [Session.check]
    split_ifs
    · rcases req.params.bind lib.documentFormatting with _ | params
      · rfl
      · exact checkFormat_ok lib (h params.textDocument.uri)
    · rfl
  | notification notif =>
    rw [Session.check, handleNotification_ok h]
    rfl
  | response resp => rfl

theorem checks_ok {messages : List Message} (h : Fits lib s messages) :
    s.checks lib messages = .ok () := by
  induction messages generalizing s with
  | nil => rfl
  | cons message messages ih =>
    have hcheck : s.check lib message = .ok () := check_ok (h [] message messages rfl)
    rw [Session.checks, hcheck]
    exact ih fun before m after hsplit ↦
      h (message :: before) m after (congrArg (message :: ·) hsplit)

/-- Texts that are small enough together always fit. -/
theorem fits_of_sum (hwithin : Within bound s.state.documents) {messages : List Message}
    (hbound : bound + (messages.map (messageBytes lib)).sum < 2 ^ 32) : Fits lib s messages := by
  induction messages generalizing s bound with
  | nil => exact fun before message after hsplit ↦ by simp at hsplit
  | cons message messages ih =>
    rw [List.map_cons, List.sum_cons, ← Nat.add_assoc] at hbound
    have hmessage : bound + messageBytes lib message < 2 ^ 32 := by omega
    have hnext : Within (bound + messageBytes lib message) (s.next lib message).state.documents := by
      cases message with
      | request req =>
        rw [Session.next]
        split_ifs <;> exact hwithin
      | notification notif =>
        obtain ⟨hnotif, hwithin'⟩ := handleNotification_eq hwithin hmessage
        rw [Session.next, noted, hnotif]
        exact hwithin'
      | response resp => exact hwithin
    intro before m after hsplit
    cases before with
    | nil =>
      obtain ⟨rfl, rfl⟩ := List.cons.inj hsplit
      exact fun uri doc hdoc ↦ (Nat.add_le_add_right (hwithin uri doc hdoc) _).trans_lt hmessage
    | cons first before =>
      obtain ⟨rfl, rfl⟩ := List.cons.inj hsplit
      exact ih hnext hbound before m after rfl

end Steps

section Run

variable {lib} {c : Connection ω} {s : Session υ}

/-- A stream is empty, or begins with what ends the session, or with a message that does not. -/
@[elab_as_elim]
theorem received_induction {motive : List (Except IoError Message) → Prop} (nil : motive [])
    (ends : ∀ item rest, Ends item → motive (item :: rest))
    (cons : ∀ message rest, ¬ Ends (.ok message) → motive rest → motive (.ok message :: rest))
    (received : List (Except IoError Message)) : motive received := by
  induction received with
  | nil => exact nil
  | cons item rest ih =>
    by_cases hends : Ends item
    · exact ends item rest hends
    · rcases item with e | message
      · exact absurd trivial hends
      · exact cons message rest hends ih

theorem messagesOf_cons_of_ends {item : Except IoError Message} (h : Ends item)
    (rest : List (Except IoError Message)) : messagesOf (item :: rest) = [] := by
  simp [messagesOf, h]

theorem messagesOf_cons {message : Message} (h : ¬ Ends (.ok message))
    (rest : List (Except IoError Message)) :
    messagesOf (.ok message :: rest) = message :: messagesOf rest := by
  simp [messagesOf, h, Except.toOption]

theorem endingOf_cons {message : Message} (h : ¬ Ends (.ok message))
    (rest : List (Except IoError Message)) (s : Session υ) :
    endingOf (.ok message :: rest) s = endingOf rest s := by
  simp [endingOf, h]

theorem endingOf_cons_of_ends {item : Except IoError Message} (h : Ends item)
    (rest : List (Except IoError Message)) (s : Session υ) :
    endingOf (item :: rest) s = endingOf [item] s := by
  rcases item with e | message <;> simp [endingOf, h]

/-- The requests in the table of a connection, after those of `before` and the messages. -/
def leftOver (before : RequestId → Prop) (messages : List Message) : RequestId → Prop :=
  messages.foldl (fun left message id ↦ Leaves id message ∨ ¬ Requests id message ∧ left id) before

theorem leftOver_iff {before : RequestId → Prop} {messages : List Message} {id : RequestId} :
    leftOver before messages id ↔
      (∃ front message back, messages = front ++ message :: back ∧ Leaves id message ∧
          ∀ m ∈ back, ¬ Requests id m) ∨ (∀ m ∈ messages, ¬ Requests id m) ∧ before id := by
  induction messages using List.reverseRecOn with
  | nil => simp [leftOver]
  | append_singleton messages message ih =>
    have hlast : leftOver before (messages ++ [message]) id ↔
        Leaves id message ∨ ¬ Requests id message ∧ leftOver before messages id := by
      rw [leftOver, List.foldl_append]
      rfl
    rw [hlast, ih]
    constructor
    · rintro (hleaves | ⟨hnot, ⟨front, m, back, rfl, hleaves, hback⟩ | ⟨hnone, hbefore⟩⟩)
      · exact .inl ⟨messages, message, [], rfl, hleaves, by simp⟩
      · refine .inl ⟨front, m, back ++ [message], by simp, hleaves, ?_⟩
        simpa [or_imp, forall_and] using ⟨hback, hnot⟩
      · exact .inr ⟨by simpa [or_imp, forall_and] using ⟨hnone, hnot⟩, hbefore⟩
    · rintro (⟨front, m, back, hsplit, hleaves, hback⟩ | ⟨hnone, hbefore⟩)
      · rcases List.eq_nil_or_concat back with rfl | ⟨back, last, rfl⟩
        · obtain ⟨-, he⟩ := List.append_inj' hsplit rfl
          obtain rfl := List.singleton_inj.mp he
          exact .inl hleaves
        · rw [List.concat_eq_append, ← List.cons_append, ← List.append_assoc] at hsplit
          obtain ⟨rfl, he⟩ := List.append_inj' hsplit rfl
          obtain rfl := List.singleton_inj.mp he
          exact .inr ⟨hback _ (by simp), .inl ⟨front, m, back, rfl, hleaves, fun x hx ↦
            hback x (by simp [hx])⟩⟩
      · exact .inr ⟨hnone _ (by simp), .inr ⟨fun m hm ↦ hnone m (by simp [hm]), hbefore⟩⟩

variable [DecidableEq υ]

/-- What the loop leaves behind when the session takes it to its end. -/
structure Finished (lib : Library υ) (c : Connection ω) (s : Session υ)
    (received : List (Except IoError Message)) (ending : ServerEnd) (c' : Connection ω)
    (state : ServerState υ) : Prop where
  ending : ending = endingOf received (s.final lib (messagesOf received))
  state : state = (s.final lib (messagesOf received)).state
  pending : ∀ id, (pending c' id).isSome ↔
    leftOver (fun id ↦ (pending c id).isSome) (messagesOf received) id

theorem serve_of_ends (lib : Library υ) (h : Serving c s) {item : Except IoError Message}
    (hends : Ends item) (delayFirst : ℕ → Bool) (rest : List (Except IoError Message)) :
    ∃ ending c' state, serve lib delayFirst c s.state (item :: rest) = .ok (ending, c', state) ∧
      c'.outbound = c.outbound ∧ c'.receiver = rest ∧
      Finished lib c s (item :: rest) ending c' state := by
  have hmessages := messagesOf_cons_of_ends hends rest
  rcases item with e | req | resp | notif
  · refine ⟨.receiveFailed e, { c with receiver := rest }, s.state, by rw [serve], rfl, rfl, ?_, ?_, ?_⟩
    · simp [endingOf, hends]
    · rw [hmessages]
      rfl
    · rw [hmessages]
      exact fun _ ↦ Iff.rfl
  · exact hends.elim
  · exact hends.elim
  · have hexit : notif.method = exitMethod := hends
    have hcancelled : cancelled notif = none := by
      rw [cancelled, if_neg]
      rw [hexit]
      decide
    refine ⟨.exit c.handleExit.1, { c.handleExit.2 with receiver := rest }, s.state, ?_, rfl, rfl,
      ?_, ?_, ?_⟩
    · rw [serve, c.route_of_not_cancelled hcancelled]
      exact if_pos hexit
    · have hcode : c.handleExit.1 = if s.down then .success else .error := by
        unfold Connection.handleExit
        by_cases hdown : s.down = true <;> simp [hdown, h.lifecycle]
      simp [hmessages, endingOf, hends, Session.final, hcode]
    · rw [hmessages]
      rfl
    · rw [hmessages]
      exact fun _ ↦ Iff.rfl

/-- What the loop has taken from the stream, and what it has said to it. Only the last that it took
may end the session. -/
structure Taken (lib : Library υ) (delayFirst : ℕ → Bool) (c : Connection ω) (s : Session υ)
    (consumed : List (Except IoError Message)) (c' : Connection ω) : Prop where
  last : ∀ item ∈ consumed.dropLast, ¬ Ends item
  outbound : c'.outbound = c.outbound.pushAll (s.outputs lib delayFirst (messagesOf consumed))

theorem taken_singleton {item : Except IoError Message} {delayFirst : ℕ → Bool} {c' : Connection ω}
    (houtbound : c'.outbound = c.outbound.pushAll (s.outputs lib delayFirst (messagesOf [item]))) :
    Taken lib delayFirst c s [item] c' := ⟨by simp, houtbound⟩

theorem Taken.cons {message : Message} (hends : ¬ Ends (.ok message)) {delayFirst : ℕ → Bool}
    {c₁ c' : Connection ω} (hserved : Served lib (delayFirst 0) c s message c₁)
    {consumed : List (Except IoError Message)}
    (h : Taken lib (Session.shift delayFirst message) c₁ (s.next lib message) consumed c') :
    Taken lib delayFirst c s (.ok message :: consumed) c' := by
  refine ⟨fun item hitem ↦ ?_, ?_⟩
  · cases consumed with
    | nil => cases hitem
    | cons x consumed =>
      rcases List.mem_cons.mp hitem with rfl | hitem
      · exact hends
      · exact h.last item hitem
  · rw [h.outbound, hserved.outbound, messagesOf_cons hends, Session.outputs, Outbound.pushAll_append]

theorem taken_nil {delayFirst : ℕ → Bool} {c' : Connection ω} (houtbound : c'.outbound = c.outbound) :
    Taken lib delayFirst c s [] c' := ⟨by simp, houtbound⟩

theorem Finished.cons {message : Message} (hends : ¬ Ends (.ok message)) {delayFirst : Bool}
    {c₁ c' : Connection ω} (hserved : Served lib delayFirst c s message c₁)
    {rest : List (Except IoError Message)} {ending : ServerEnd} {state : ServerState υ}
    (h : Finished lib c₁ (s.next lib message) rest ending c' state) :
    Finished lib c s (.ok message :: rest) ending c' state := by
  have hmessages := messagesOf_cons hends rest
  refine ⟨?_, ?_, fun id ↦ ?_⟩
  · rw [h.ending, endingOf_cons hends, hmessages]
    rfl
  · rw [h.state, hmessages]
    rfl
  · simp only [h.pending, hmessages, leftOver, List.foldl_cons, hserved.pending]

/-- The loop refines the session. A failed response ends it early, but then nothing can be sent any
more, so the same messages have been sent. -/
theorem serve_refines (h : Serving c s) {received : List (Except IoError Message)}
    {delayFirst : ℕ → Bool} {ending : ServerEnd} {c' : Connection ω} {state : ServerState υ}
    (hserve : serve lib delayFirst c s.state received = .ok (ending, c', state)) :
    ∃ consumed, received = consumed ++ c'.receiver ∧ Taken lib delayFirst c s consumed c' ∧
      c'.outbound = c.outbound.pushAll (s.outputs lib delayFirst (messagesOf received)) ∧
      (Finished lib c s received ending c' state ∨
        ending = .respondFailed ∧ c'.outbound.takes = some 0) := by
  induction received using received_induction generalizing c s delayFirst with
  | nil =>
    rw [serve] at hserve
    cases hserve
    exact ⟨[], rfl, taken_nil rfl, rfl, .inl ⟨rfl, rfl, fun _ ↦ Iff.rfl⟩⟩
  | ends item rest hends =>
    obtain ⟨ending', c'', state', hserve', houtbound, hreceiver, hfinished⟩ :=
      serve_of_ends lib h hends delayFirst rest
    rw [hserve'] at hserve
    cases hserve
    have hpushed : c'.outbound = c.outbound.pushAll
        (s.outputs lib delayFirst (messagesOf (item :: rest))) := by
      rw [houtbound, messagesOf_cons_of_ends hends]
      rfl
    refine ⟨[item], by rw [hreceiver, List.singleton_append], taken_singleton ?_, hpushed,
      .inl hfinished⟩
    rwa [messagesOf_cons_of_ends hends] at hpushed ⊢
  | cons message rest hends ih =>
    have hturn := serve_cons lib h hends delayFirst rest
    rw [hserve] at hturn
    rw [messagesOf_cons hends, Session.outputs, Outbound.pushAll_append]
    generalize hresult : Except.ok (ending, c', state) = result at hturn
    cases hturn with
    | panic => cases hresult
    | refused _ _ houtbound hclosed hreceiver =>
      cases hresult
      refine ⟨[.ok message], by rw [hreceiver, List.singleton_append], taken_singleton ?_, ?_,
        .inr ⟨rfl, hclosed⟩⟩
      · rw [messagesOf_cons hends, houtbound, Session.outputs]
        exact congrArg _ (List.append_nil _).symm
      · rw [← houtbound, Outbound.pushAll_of_closed hclosed]
    | served _ _ hserved =>
      obtain ⟨consumed, hsplit, htaken, houtbound, hend⟩ := ih hserved.serving hresult.symm
      rw [← hserved.outbound]
      exact ⟨.ok message :: consumed, congrArg (.ok message :: ·) hsplit, htaken.cons hends hserved,
        houtbound, hend.imp_left (·.cons hends hserved)⟩

/-- The loop stops the program only where the session does, and exactly there if the channel is open. -/
theorem serve_panics (lib : Library υ) (h : Serving c s) (delayFirst : ℕ → Bool)
    (received : List (Except IoError Message)) (p : TextPanic) :
    (serve lib delayFirst c s.state received = .error p →
      s.checks lib (messagesOf received) = .error p) ∧
    (c.outbound.takes = none → s.checks lib (messagesOf received) = .error p →
      serve lib delayFirst c s.state received = .error p) := by
  induction received using received_induction generalizing c s delayFirst with
  | nil =>
    rw [serve]
    exact ⟨nofun, fun _ ↦ nofun⟩
  | ends item rest hends =>
    obtain ⟨ending, c', state, hserve, -⟩ := serve_of_ends lib h hends delayFirst rest
    rw [hserve, messagesOf_cons_of_ends hends]
    exact ⟨nofun, fun _ ↦ nofun⟩
  | cons message rest hends ih =>
    have hturn := serve_cons lib h hends delayFirst rest
    rw [messagesOf_cons hends, Session.checks]
    generalize serve lib delayFirst c s.state (.ok message :: rest) = result at hturn ⊢
    cases hturn with
    | panic hcheck =>
      rw [hcheck]
      refine ⟨fun hpanic ↦ ?_, fun _ hpanic ↦ ?_⟩ <;>
        · cases hpanic
          rfl
    | refused hcheck _ houtbound hclosed =>
      refine ⟨nofun, fun hopen ↦ ?_⟩
      rw [houtbound, Outbound.takes_pushAll, hopen] at hclosed
      cases hclosed
    | served hcheck _ hserved =>
      rw [hcheck]
      obtain ⟨hpanics, hstops⟩ := ih hserved.serving (Session.shift delayFirst message)
      refine ⟨hpanics, fun hopen ↦ hstops ?_⟩
      rw [hserved.outbound, Outbound.takes_pushAll, hopen, Option.map_none]

end Run

end LspServerTokio.FormatterServer
