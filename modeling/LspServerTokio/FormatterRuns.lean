import LspServerTokio.FormatterSession

namespace LspServerTokio.FormatterServer

open Foundation Cancellation

variable {υ ω : Type} {lib : Library υ} {s : Session υ}

section Outputs

theorem responses_logged (typ : MessageType) (text : String) :
    responses (logged lib typ text) = [] := by
  unfold logged
  split <;> rfl

theorem responses_format (uri : υ) (delayFirst : Bool) :
    responses (s.format lib uri delayFirst).1 = [] := by
  unfold Session.format
  split
  · rfl
  · dsimp only
    split_ifs
    · rw [List.append_nil, responses_logged]
    · rw [responses_append, responses_logged, responses_logged, List.append_nil]
    · rw [responses_append, responses_logged, responses_logged, List.append_nil]

theorem formattingResponse_id (id : RequestId) (result : Except FormatError (List TextEdit)) :
    (formattingResponse lib id result).id = some id := by
  unfold formattingResponse
  split
  · split <;> rfl
  · rfl
  · rfl

theorem answer_ids (lib : Library υ) (s : Session υ) (req : Request) (delayFirst : Bool) :
    responses (s.answer lib req delayFirst).1 = [] ∧
      (s.answer lib req delayFirst).2.id = some req.id := by
  unfold Session.answer
  split_ifs
  · exact ⟨rfl, rfl⟩
  · split
    · exact ⟨rfl, rfl⟩
    · exact ⟨responses_format _ _, formattingResponse_id _ _⟩
  · exact ⟨rfl, rfl⟩

theorem responses_react (delayFirst : Bool) (message : Message) :
    (responses (s.react lib delayFirst message)).map (·.id) =
      (requests [message]).map fun req ↦ some req.id := by
  cases message with
  | request req =>
    obtain ⟨hlogs, hid⟩ := answer_ids lib s req delayFirst
    rw [Session.react, responses_append, hlogs]
    exact congrArg (fun id ↦ [id]) hid
  | notification notif => rfl
  | response resp => rfl

variable [DecidableEq υ]

/-- Every request is answered once, with its own id and in its turn. -/
theorem responses_outputs (lib : Library υ) (s : Session υ) (delayFirst : ℕ → Bool)
    (messages : List Message) :
    (responses (s.outputs lib delayFirst messages)).map (·.id) =
      (requests messages).map fun req ↦ some req.id := by
  induction messages generalizing s delayFirst with
  | nil => rfl
  | cons message messages ih =>
    rw [Session.outputs, responses_append, List.map_append, responses_react, ih, ← List.map_append,
      ← requests_append, List.singleton_append]

theorem outputs_append (delayFirst : ℕ → Bool) (first second : List Message) :
    s.outputs lib delayFirst (first ++ second) = s.outputs lib delayFirst first ++
      (s.final lib first).outputs lib (first.foldl Session.shift delayFirst) second := by
  induction first generalizing s delayFirst with
  | nil => rfl
  | cons message first ih =>
    rw [List.cons_append, Session.outputs, Session.outputs, ih, List.append_assoc]
    rfl

end Outputs

section Final

variable [DecidableEq υ]

def notifications (messages : List Message) : List Notification :=
  messages.filterMap fun
    | .notification notif => some notif
    | _ => none

theorem final_cons (message : Message) (messages : List Message) :
    s.final lib (message :: messages) = (s.next lib message).final lib messages := rfl

theorem ClientRun.noted {documents documents' : Table υ DocumentState} {notifs : List Notification}
    (h : ClientRun lib.toNotificationParams documents notifs documents') :
    notifs.foldl (noted lib) ⟨documents⟩ = ⟨documents'⟩ := by
  induction h with
  | nil => rfl
  | cons hstep _ ih =>
    rw [List.foldl_cons, FormatterServer.noted, hstep.synchronized]
    exact ih

theorem final_down (lib : Library υ) (s : Session υ) (messages : List Message) :
    (s.final lib messages).down = true ↔
    s.down = true ∨ ∃ req ∈ requests messages, req.method = shutdownMethod := by
  induction messages generalizing s with
  | nil => simp [Session.final, requests]
  | cons message messages ih =>
    rw [final_cons, ih, ← List.singleton_append, requests_append]
    cases message with
    | request req =>
      rw [Session.next]
      by_cases hreq : req.method = shutdownMethod <;> simp [requests, hreq]
    | notification notif | response resp => simp [requests, Session.next]

end Final

section Cancelled

variable [DecidableEq υ]

/-- A notification that asks to cancel a request, or would if its parameters were right. -/
def CancelRequest : Except IoError Message → Prop
  | .ok (.notification notif) => notif.method = cancelRequestMethod
  | .ok _ | .error _ => False

instance : DecidablePred CancelRequest
  | .ok (.notification notif) => inferInstanceAs (Decidable (notif.method = cancelRequestMethod))
  | .ok (.request _) | .ok (.response _) | .error _ => isFalse not_false

theorem not_ends_of_cancelRequest {item : Except IoError Message} (h : CancelRequest item) :
    ¬ Ends item := by
  rcases item with e | req | resp | notif
  · exact h.elim
  · exact h.elim
  · exact h.elim
  · have hm : notif.method = cancelRequestMethod := h
    simp [Ends, hm, cancelRequestMethod, exitMethod]

theorem next_of_cancelRequest (lib : Library υ) (s : Session υ) {message : Message}
    (h : CancelRequest (.ok message)) :
    s.next lib message = s ∧ s.check lib message = .ok () ∧
      (∀ delayFirst, s.react lib delayFirst message = []) ∧
      (∀ delayFirst, Session.shift delayFirst message = delayFirst) ∧
      ∀ outbound delayFirst, ¬ s.Refuses lib outbound delayFirst message := by
  cases message with
  | request req => exact h.elim
  | response resp => exact h.elim
  | notification notif =>
    have hnotif := handleNotification_of_cancelRequest lib h s.state
    refine ⟨?_, ?_, fun _ ↦ rfl, fun _ ↦ rfl, fun _ _ ↦ not_false⟩
    · rw [Session.next, noted, hnotif]
    · rw [Session.check, hnotif]
      rfl

/-- What a run of the server shows: how it ends, what it has written, and its documents. -/
def shown (run : ServerEnd × Connection ω × ServerState υ) :
    ServerEnd × Outbound × ServerState υ := (run.1, run.2.1.outbound, run.2.2)

theorem shown_of_ends {c : Connection ω} (h : Serving c s) {item : Except IoError Message}
    (hends : Ends item) (delayFirst : ℕ → Bool) (rest : List (Except IoError Message)) :
    (serve lib delayFirst c s.state (item :: rest)).map shown =
      .ok (endingOf [item] s, c.outbound, s.state) := by
  obtain ⟨ending, c', state, hserve, houtbound, -, hfinished⟩ :=
    serve_of_ends lib h hends delayFirst rest
  have hending := hfinished.ending
  have hstate := hfinished.state
  rw [messagesOf_cons_of_ends hends] at hending hstate
  rw [endingOf_cons_of_ends hends] at hending
  rw [hserve]
  simp only [Except.map, shown, hending, hstate, houtbound]
  rfl

/-- Two connections of one session, one of which gets no cancellations, go on side by side. -/
theorem serve_filter {c₁ c₂ : Connection ω} (h₁ : Serving c₁ s) (h₂ : Serving c₂ s)
    (houtbound : c₁.outbound = c₂.outbound) (delayFirst : ℕ → Bool)
    (received : List (Except IoError Message)) :
    (serve lib delayFirst c₁ s.state (received.filter (¬ CancelRequest ·))).map shown =
      (serve lib delayFirst c₂ s.state received).map shown := by
  induction received using received_induction generalizing c₁ c₂ s delayFirst with
  | nil =>
    rw [List.filter_nil, serve, serve]
    simp only [Except.map, shown, houtbound]
  | ends item rest hends =>
    have hkept : ¬ CancelRequest item := fun hcancel ↦ not_ends_of_cancelRequest hcancel hends
    rw [List.filter_cons_of_pos (by simpa using hkept), shown_of_ends h₁ hends, shown_of_ends h₂ hends,
      houtbound]
  | cons message rest hends ih =>
    have hturn₂ := serve_cons lib h₂ hends delayFirst rest
    by_cases hcancel : CancelRequest (.ok message)
    · obtain ⟨hnext, hcheck, hreact, hshift, hrefuses⟩ := next_of_cancelRequest lib s hcancel
      obtain ⟨c', hserved, hserve⟩ := hturn₂.of_served hcheck (hrefuses _ _)
      have hserving := hserved.serving
      have hpushed := hserved.outbound
      rw [hnext] at hserving
      rw [hreact] at hpushed
      rw [List.filter_cons_of_neg (by simpa using hcancel), hserve, hnext, hshift]
      exact ih h₁ hserving (houtbound.trans hpushed.symm) delayFirst
    · rw [List.filter_cons_of_pos (by simpa using hcancel)]
      have hturn₁ := serve_cons lib h₁ hends delayFirst (rest.filter (¬ CancelRequest ·))
      generalize serve lib delayFirst c₁ s.state _ = result at hturn₁ ⊢
      cases hturn₁ with
      | panic hpanic => rw [hturn₂.of_panic hpanic]
      | refused hcheck hrefuses hpushed =>
        obtain ⟨c', hserve, hpushed'⟩ := hturn₂.of_refused hcheck (houtbound ▸ hrefuses)
        rw [hserve]
        simp only [Except.map, shown, hpushed, hpushed', houtbound]
      | served hcheck hrefuses hserved =>
        obtain ⟨c', hserved', hserve⟩ := hturn₂.of_served hcheck (houtbound ▸ hrefuses)
        rw [hserve]
        refine ih hserved.serving hserved'.serving ?_ (Session.shift delayFirst message)
        rw [hserved.outbound, hserved'.outbound, houtbound]

end Cancelled

section Ending

theorem ends_split (received : List (Except IoError Message)) : (∀ item ∈ received, ¬ Ends item) ∨
    ∃ before item after, received = before ++ item :: after ∧ (∀ x ∈ before, ¬ Ends x) ∧ Ends item := by
  induction received with
  | nil => exact .inl (by simp)
  | cons item received ih =>
    by_cases hends : Ends item
    · exact .inr ⟨[], item, received, rfl, by simp, hends⟩
    · rcases ih with hnone | ⟨before, last, after, rfl, hbefore, hlast⟩
      · exact .inl (List.forall_mem_cons.mpr ⟨hends, hnone⟩)
      · exact .inr ⟨item :: before, last, after, rfl, List.forall_mem_cons.mpr ⟨hends, hbefore⟩, hlast⟩

theorem messagesOf_split {before after : List (Except IoError Message)} {item : Except IoError Message}
    (hbefore : ∀ x ∈ before, ¬ Ends x) (hends : Ends item) :
    messagesOf (before ++ item :: after) = before.filterMap Except.toOption := by
  rw [messagesOf, List.takeWhile_append_of_pos (by simpa using hbefore),
    List.takeWhile_cons_of_neg (by simpa using hends), List.append_nil]

theorem endingOf_split {before after : List (Except IoError Message)} {item : Except IoError Message}
    (hbefore : ∀ x ∈ before, ¬ Ends x) (hends : Ends item) (s : Session υ) :
    endingOf (before ++ item :: after) s = endingOf [item] s := by
  rw [← endingOf_cons_of_ends hends after, endingOf,
    List.dropWhile_append_of_pos (by simpa using hbefore)]
  rfl

theorem endingOf_exits {message : Message} (h : Ends (.ok message)) (s : Session υ) :
    endingOf [.ok message] s = .exit (if s.down then .success else .error) := by
  simp [endingOf, h]

theorem endingOf_of_none {received : List (Except IoError Message)}
    (h : ∀ item ∈ received, ¬ Ends item) (s : Session υ) : endingOf received s = .disconnected := by
  have hdrop : received.dropWhile (¬ Ends ·) = [] := List.dropWhile_eq_nil_iff.mpr (by simpa using h)
  rw [endingOf, hdrop]

theorem mem_requests {before : List (Except IoError Message)} {req : Request} :
    req ∈ requests (before.filterMap Except.toOption) ↔ .ok (.request req) ∈ before := by
  simp only [requests, List.mem_filterMap]
  constructor
  · rintro ⟨message, ⟨item, hitem, hok⟩, hreq⟩
    rcases item with e | message'
    · cases hok
    · cases hok
      rcases message with req' | resp | notif
      · cases hreq
        exact hitem
      · cases hreq
      · cases hreq
  · exact fun hreq ↦ ⟨.request req, ⟨_, hreq, rfl⟩, rfl⟩

/-- The session ends with `exit` exactly if the notification comes before an error, and the code tells
whether the shutdown was requested before it. -/
theorem endingOf_exit [DecidableEq υ] {received : List (Except IoError Message)} {code : ExitCode} :
    endingOf received ((.new : Session υ).final lib (messagesOf received)) = .exit code ↔
      ∃ before notif after, received = before ++ .ok (.notification notif) :: after ∧
        notif.method = exitMethod ∧ (∀ item ∈ before, ¬ Ends item) ∧
        (code = .success ↔ ∃ req, .ok (.request req) ∈ before ∧ req.method = shutdownMethod) := by
  have hsplit : ∀ {before notif after}, (∀ item ∈ before, ¬ Ends item) → notif.method = exitMethod →
      (endingOf (before ++ .ok (.notification notif) :: after) ((.new : Session υ).final lib
          (messagesOf (before ++ .ok (.notification notif) :: after))) = .exit code ↔
        (code = .success ↔ ∃ req, .ok (.request req) ∈ before ∧ req.method = shutdownMethod)) := by
    intro before notif after hbefore hexit
    have hends : Ends (.ok (.notification notif)) := hexit
    have hdown := final_down lib .new (before.filterMap Except.toOption)
    simp only [mem_requests, Session.new, Bool.false_eq_true, false_or] at hdown
    rw [endingOf_split hbefore hends, messagesOf_split hbefore hends, endingOf_exits hends,
      ← hdown, Session.new, ServerEnd.exit.injEq]
    split_ifs with hd <;> cases code <;> simp [hd]
  rcases ends_split received with hnone | ⟨before, item, after, rfl, hbefore, hends⟩
  · rw [endingOf_of_none hnone]
    constructor
    · intro h
      cases h
    · rintro ⟨before, notif, after, rfl, hexit, -⟩
      exact absurd hexit (hnone (.ok (.notification notif)) (by simp))
  · constructor
    · intro h
      rcases item with e | req | resp | notif
      · rw [endingOf_split hbefore hends] at h
        simp [endingOf, hends] at h
      · exact hends.elim
      · exact hends.elim
      · exact ⟨before, notif, after, rfl, hends, hbefore, (hsplit hbefore hends).mp h⟩
    · rintro ⟨before', notif, after', he, hexit, hbefore', hcode⟩
      rw [he]
      exact (hsplit hbefore' hexit).mpr hcode

end Ending

section Sample

def editJson (edit : TextEdit) : Json :=
  let positionJson (position : Position) : Json := .object
    [("character", natural position.character),
      ("line", natural position.line)]
  .object [("newText", .string (.ofList edit.newText)),
    ("range", .object [("end", positionJson edit.range.end), ("start", positionJson edit.range.start)])]

/-- A library for texts in ASCII. -/
def sampleLibrary : Library String where
  toNotificationParams := sampleParams
  documentFormatting v :=
    match v.json with
    | .object [("options", _), ("textDocument", .object [("uri", .string uri)])] => some ⟨⟨uri⟩⟩
    | _ => none
  textEdits edits := .ok (.deserialize (.array (edits.map editJson)))
  logMessageParams typ message :=
    let type := match typ with
      | .info => natural 3
      | .log => natural 4
    .ok (.deserialize (.object [("message", .string message), ("type", type)]))
  debugUri uri := uri
  toUppercase c := [c.toUpper]

def sampleFormatting : Request where
  id := .integer ⟨1, one_isI32⟩
  method := "textDocument/formatting"
  params := some (.deserialize (.object [("options", .object []),
    ("textDocument", .object [("uri", .string "file:///a")])]))

def sampleShutdown : Request := ⟨.integer ⟨2, two_isI32⟩, "shutdown", none⟩

/-- A client opens a document, has it formatted, and leaves. Its cancellation comes too late. -/
def sampleSession : List (Except IoError Message) :=
  [.ok (.notification sampleOpen), .ok (.request sampleFormatting),
    .ok (.notification (Connection.cancelNotification sampleFormatting.id)),
    .ok (.request sampleShutdown), .ok (.notification ⟨"exit", none⟩)]

/-- A client that asks for the formatting after the shutdown. -/
def sampleLate : List (Except IoError Message) :=
  [.ok (.notification sampleOpen), .ok (.request sampleShutdown), .ok (.request sampleFormatting)]

theorem messagesOf_sampleSession : messagesOf sampleSession =
    [.notification sampleOpen, .request sampleFormatting,
      .notification (Connection.cancelNotification sampleFormatting.id), .request sampleShutdown] := rfl

end Sample

section Server

variable [DecidableEq υ] {c : Connection ω}

/-- All that the server writes: the first log message, and what the session says. -/
def written (lib : Library υ) (delayFirst : ℕ → Bool) (received : List (Except IoError Message)) :
    List Message :=
  logged lib .info "Formatter server ready" ++
    (Session.new : Session υ).outputs lib delayFirst (messagesOf received)

/-- The texts of a session are never so long that positions in them overflow. -/
def TextsFit (lib : Library υ) (received : List (Except IoError Message)) : Prop :=
  Fits lib .new (messagesOf received)

theorem textsFit_of_sum {received : List (Except IoError Message)}
    (h : ((messagesOf received).map (messageBytes lib)).sum < 2 ^ 32) : TextsFit lib received :=
  fits_of_sum (within_new : Within 0 _) ((Nat.zero_add _).trans_lt h)

theorem textsFit_sampleLate : TextsFit sampleLibrary sampleLate := by
  have hmessages : messagesOf sampleLate =
      [.notification sampleOpen, .request sampleShutdown, .request sampleFormatting] := rfl
  refine textsFit_of_sum ?_
  rw [hmessages]
  decide

theorem textsFit_sampleSession : TextsFit sampleLibrary sampleSession := by
  refine textsFit_of_sum ?_
  rw [messagesOf_sampleSession]
  decide

theorem runServer_eq (delayFirst : ℕ → Bool) (c : Connection ω) : runServer lib delayFirst c =
    serve lib delayFirst (c.pushing (logged lib .info "Formatter server ready"))
      (.new : Session υ).state c.receiver := by
  rw [runServer, logMessage_eq]
  rfl

theorem runServer_refines {delayFirst : ℕ → Bool} (h : Serving c (.new : Session υ))
    {ending : ServerEnd} {c' : Connection ω} {state : ServerState υ}
    (hrun : runServer lib delayFirst c = .ok (ending, c', state)) :
    ∃ consumed, c.receiver = consumed ++ c'.receiver ∧ (∀ item ∈ consumed.dropLast, ¬ Ends item) ∧
      c'.outbound = c.outbound.pushAll (written lib delayFirst consumed) ∧
      c'.outbound = c.outbound.pushAll (written lib delayFirst c.receiver) ∧
      (Finished lib c .new c.receiver ending c' state ∨
        ending = .respondFailed ∧ c'.outbound.takes = some 0) := by
  rw [runServer_eq] at hrun
  obtain ⟨consumed, hsplit, htaken, houtbound, hend⟩ := serve_refines
    (h.pushing (logged lib .info "Formatter server ready")) hrun
  refine ⟨consumed, hsplit, htaken.last, ?_, ?_, hend.imp_left fun hfinished ↦ ?_⟩
  · rw [htaken.outbound, written, Outbound.pushAll_append]
    rfl
  · rw [houtbound, written, Outbound.pushAll_append]
    rfl
  · exact ⟨hfinished.ending, hfinished.state, hfinished.pending⟩

theorem runServer_panics (h : Serving c (.new : Session υ)) (delayFirst : ℕ → Bool) (p : TextPanic) :
    (runServer lib delayFirst c = .error p →
      (.new : Session υ).checks lib (messagesOf c.receiver) = .error p) ∧
    (c.outbound.takes = none → (.new : Session υ).checks lib (messagesOf c.receiver) = .error p →
      runServer lib delayFirst c = .error p) := by
  rw [runServer_eq]
  obtain ⟨hpanics, hstops⟩ := serve_panics lib
    (h.pushing (logged lib .info "Formatter server ready")) delayFirst c.receiver p
  refine ⟨hpanics, fun hopen ↦ hstops ?_⟩
  rw [Connection.pushing, Outbound.takes_pushAll, hopen, Option.map_none]

theorem runServer_ok (h : Serving c (.new : Session υ)) (hfit : TextsFit lib c.receiver)
    (delayFirst : ℕ → Bool) :
    ∃ ending c' state, runServer lib delayFirst c = .ok (ending, c', state) := by
  rcases hrun : runServer lib delayFirst c with p | ⟨ending, c', state⟩
  · have hchecks := (runServer_panics h delayFirst p).1 hrun
    rw [checks_ok hfit] at hchecks
    cases hchecks
  · exact ⟨ending, c', state, rfl⟩

theorem responses_written (delayFirst : ℕ → Bool) (received : List (Except IoError Message)) :
    (responses (written lib delayFirst received)).map (·.id) =
      (requests (messagesOf received)).map fun req ↦ some req.id := by
  rw [written, responses_append, responses_logged, List.nil_append, responses_outputs]

/-- What ends a session is not a request. -/
theorem requests_messagesOf {consumed : List (Except IoError Message)}
    (h : ∀ item ∈ consumed.dropLast, ¬ Ends item) :
    requests (messagesOf consumed) = requests (consumed.filterMap Except.toOption) := by
  rcases List.eq_nil_or_concat consumed with rfl | ⟨before, item, rfl⟩
  · rfl
  · rw [List.concat_eq_append, List.dropLast_concat] at h
    rw [List.concat_eq_append]
    by_cases hends : Ends item
    · have hrequests : requests ([item].filterMap Except.toOption) = [] := by
        rcases item with e | req | resp | notif
        · rfl
        · exact hends.elim
        · rfl
        · rfl
      rw [messagesOf_split h hends, List.filterMap_append, requests_append, hrequests, List.append_nil]
    · have hnone : ∀ x ∈ before ++ [item], ¬ Ends x := by
        simpa [or_imp, forall_and] using ⟨h, hends⟩
      rw [messagesOf, List.takeWhile_eq_self_iff.mpr (by simpa using hnone)]

/-- Every request that the server takes from the stream is answered exactly once, in the order of the
requests and with their ids. What is sent when the channel is closed is lost. -/
theorem runServer_answers {delayFirst : ℕ → Bool} (h : Serving c (.new : Session υ))
    {ending : ServerEnd} {c' : Connection ω} {state : ServerState υ}
    (hrun : runServer lib delayFirst c = .ok (ending, c', state)) :
    ∃ consumed sent, c.receiver = consumed ++ c'.receiver ∧ c'.outbound = c.outbound.pushAll sent ∧
      (responses sent).map (·.id) = requestedIds consumed := by
  obtain ⟨consumed, hsplit, hlast, houtbound, -, -⟩ := runServer_refines h hrun
  refine ⟨consumed, _, hsplit, houtbound, ?_⟩
  rw [responses_written, requests_messagesOf hlast, requestedIds]

/-- With an open channel the server takes the session to its end. -/
theorem runServer_finished {delayFirst : ℕ → Bool} (h : Serving c (.new : Session υ))
    (hopen : c.outbound.takes = none) {ending : ServerEnd} {c' : Connection ω}
    {state : ServerState υ} (hrun : runServer lib delayFirst c = .ok (ending, c', state)) :
    c'.outbound.sent = c.outbound.sent ++ written lib delayFirst c.receiver ∧
      Finished lib c .new c.receiver ending c' state := by
  obtain ⟨-, -, -, -, houtbound, hend⟩ := runServer_refines h hrun
  refine ⟨?_, ?_⟩
  · rw [houtbound, Outbound.sent_pushAll, hopen, Option.elim_none]
  · refine hend.resolve_right fun hfailed ↦ ?_
    rw [houtbound, Outbound.takes_pushAll, hopen] at hfailed
    exact absurd hfailed.2 (by simp)

/-- Nothing that the client asks to cancel makes any difference: not to what the server writes, not to
its documents, and neither to how it ends nor to a panic. -/
theorem runServer_ignores_cancel (lib : Library υ) (h : Serving c (.new : Session υ))
    (delayFirst : ℕ → Bool) :
    (runServer lib delayFirst { c with receiver := c.receiver.filter (¬ CancelRequest ·) }).map shown =
      (runServer lib delayFirst c).map shown := by
  have hkept : Serving { c with receiver := c.receiver.filter (¬ CancelRequest ·) }
      (.new : Session υ) := ⟨⟨h.registry.root, h.registry.size_pos, h.registry.cancelled_lt,
    h.registry.entry⟩, h.token, h.lifecycle⟩
  rw [runServer_eq, runServer_eq]
  exact serve_filter (hkept.pushing _) (h.pushing _) rfl delayFirst c.receiver

theorem runServer_ignores_cancel_session :
    ∃ run, (runServer sampleLibrary (fun _ ↦ true) (Connection.new [.ok (.notification sampleOpen),
        .ok (.request sampleFormatting), .ok (.request sampleShutdown),
        .ok (.notification ⟨"exit", none⟩)] : Connection ℕ)).map shown = .ok run ∧
      (runServer sampleLibrary (fun _ ↦ true) (Connection.new sampleSession : Connection ℕ)).map shown =
        .ok run := by
  have hserving := serving_new (υ := String) (ω := ℕ) sampleSession
  obtain ⟨ending, c', state, hrun⟩ := runServer_ok hserving textsFit_sampleSession fun _ ↦ true
  have hsame := runServer_ignores_cancel sampleLibrary hserving fun _ ↦ true
  rw [hrun] at hsame ⊢
  exact ⟨_, hsame, rfl⟩

/-- With an open channel the server goes on to `exit`, an error or the end of the stream, and its exit
code tells whether the shutdown was requested. The ids that it leaves in the table of incoming requests
are those that were last used for a shutdown. -/
theorem runServer_ends (lib : Library υ) (delayFirst : ℕ → Bool) (h : Serving c (.new : Session υ))
    (hopen : c.outbound.takes = none) (hempty : ∀ id, pending c id = none) :
    (TextsFit lib c.receiver → ∃ ending c' state,
      runServer lib delayFirst c = .ok (ending, c', state)) ∧
    ∀ ending c' state, runServer lib delayFirst c = .ok (ending, c', state) →
      (∀ code, ending = .exit code ↔
        ∃ before notif after, c.receiver = before ++ .ok (.notification notif) :: after ∧
          notif.method = exitMethod ∧ (∀ item ∈ before, ¬ Ends item) ∧
          (code = .success ↔ ∃ req, .ok (.request req) ∈ before ∧ req.method = shutdownMethod)) ∧
      ∀ id, (pending c' id).isSome ↔ ∃ front message back,
        messagesOf c.receiver = front ++ message :: back ∧ Leaves id message ∧
          ∀ m ∈ back, ¬ Requests id m := by
  refine ⟨fun hfit ↦ runServer_ok h hfit delayFirst, fun ending c' state hrun ↦ ?_⟩
  obtain ⟨-, hfinished⟩ := runServer_finished h hopen hrun
  refine ⟨fun code ↦ ?_, fun id ↦ ?_⟩
  · rw [hfinished.ending, endingOf_exit]
  · rw [hfinished.pending, leftOver_iff]
    simp [hempty]

theorem runServer_ends_session :
    ∃ ending c' state, runServer sampleLibrary (fun _ ↦ true)
        (Connection.new sampleSession : Connection ℕ) = .ok (ending, c', state) ∧
      ending = .exit .success ∧ (pending c' sampleShutdown.id).isSome := by
  obtain ⟨hok, hends⟩ := runServer_ends sampleLibrary (fun _ ↦ true)
    (serving_new (ω := ℕ) sampleSession) rfl fun _ ↦ rfl
  obtain ⟨ending, c', state, hrun⟩ := hok textsFit_sampleSession
  obtain ⟨hexit, hleft⟩ := hends ending c' state hrun
  refine ⟨ending, c', state, hrun, (hexit .success).mpr ?_, (hleft _).mpr ?_⟩
  · refine ⟨sampleSession.take 4, ⟨"exit", none⟩, [], rfl, rfl, by decide, iff_of_true rfl ?_⟩
    exact ⟨sampleShutdown, by simp [sampleSession], rfl⟩
  · exact ⟨(messagesOf sampleSession).take 3, .request sampleShutdown, [], rfl, ⟨rfl, rfl⟩, by simp⟩

/-- The response to a request comes behind those to the requests before. -/
theorem written_at (lib : Library υ) (delayFirst : ℕ → Bool) {received : List (Except IoError Message)}
    {before after : List Message} {req : Request}
    (hreceived : messagesOf received = before ++ .request req :: after) :
    let s := (.new : Session υ).final lib before
    ∃ sent delay later,
      written lib delayFirst received = sent ++ .response (s.answer lib req delay).2 ::
        (s.next lib (.request req)).outputs lib later after ∧
      (responses sent).length = (requests before).length := by
  intro s
  let delays := before.foldl Session.shift delayFirst
  refine ⟨logged lib .info "Formatter server ready" ++
    (.new : Session υ).outputs lib delayFirst before ++ (s.answer lib req (delays 0)).1, delays 0,
    Session.shift delays (.request req), ?_, ?_⟩
  · rw [written, hreceived, outputs_append, Session.outputs, Session.react]
    simp only [List.append_assoc, List.singleton_append]
    rfl
  · have hlength := congrArg List.length (responses_outputs lib .new delayFirst before)
    rw [List.length_map, List.length_map] at hlength
    rw [responses_append, responses_append, responses_logged, (answer_ids lib s req _).1,
      List.nil_append, List.append_nil, hlength]

omit [DecidableEq υ] in
theorem format_of_down (lib : Library υ) {s : Session υ} (hdown : s.down = true) (uri : υ)
    (delayFirst : Bool) :
    ∃ e, (s.format lib uri delayFirst).2 = .error e := by
  unfold Session.format
  split
  · exact ⟨_, rfl⟩
  · simp only [hdown, if_true]
    exact ⟨_, rfl⟩

omit [DecidableEq υ] in
theorem answer_of_down {s : Session υ} (hdown : s.down = true) {req : Request}
    (hreq : req.method ≠ shutdownMethod) (delayFirst : Bool) :
    ∃ e, (s.answer lib req delayFirst).2.body = .error e := by
  unfold Session.answer
  rw [if_neg hreq]
  split_ifs
  · split
    · exact ⟨_, rfl⟩
    · next params _ =>
      obtain ⟨e, he⟩ := format_of_down lib hdown params.textDocument.uri delayFirst
      simp only [he]
      cases e <;> exact ⟨_, rfl⟩
  · exact ⟨_, rfl⟩

/-- Behind the shutdown every response is an error, apart from those to another shutdown. -/
theorem responses_of_down {s : Session υ} (hdown : s.down = true) (delayFirst : ℕ → Bool)
    {messages : List Message} {resp : Response}
    (hresp : resp ∈ responses (s.outputs lib delayFirst messages)) :
    (∃ e, resp.body = .error e) ∨
      ∃ req ∈ requests messages, req.method = shutdownMethod ∧ resp = .ok req.id .null := by
  induction messages generalizing s delayFirst with
  | nil => cases hresp
  | cons message messages ih =>
    have hnext : (s.next lib message).down = true := by
      cases message with
      | request req =>
        rw [Session.next]
        split_ifs
        · rfl
        · exact hdown
      | notification notif | response resp => exact hdown
    rw [Session.outputs, responses_append, List.mem_append] at hresp
    rcases hresp with hfirst | hrest
    · cases message with
      | notification notif | response resp => cases hfirst
      | request req =>
        rw [Session.react, responses_append, (answer_ids lib s req _).1, List.nil_append] at hfirst
        obtain rfl : resp = (s.answer lib req (delayFirst 0)).2 := List.mem_singleton.mp hfirst
        by_cases hreq : req.method = shutdownMethod
        · exact .inr ⟨req, List.mem_cons_self, hreq, by rw [Session.answer, if_pos hreq]⟩
        · exact .inl (answer_of_down hdown hreq _)
    · refine (ih hnext _ hrest).imp_right ?_
      rintro ⟨req, hmem, hreq, hnull⟩
      refine ⟨req, ?_, hreq, hnull⟩
      rw [← List.singleton_append, requests_append]
      exact List.mem_append_right _ hmem

/-- Once the shutdown is requested, the server gives no edits any more: whatever it is asked then, it
answers with an error, or with null to another shutdown. -/
theorem runServer_after_shutdown (lib : Library υ) (delayFirst : ℕ → Bool)
    (h : Serving c (.new : Session υ)) (hopen : c.outbound.takes = none)
    {before after : List Message} {req : Request}
    (hreceived : messagesOf c.receiver = before ++ .request req :: after)
    (hreq : req.method = shutdownMethod) :
    (TextsFit lib c.receiver → ∃ ending c' state,
      runServer lib delayFirst c = .ok (ending, c', state)) ∧
    ∀ ending c' state, runServer lib delayFirst c = .ok (ending, c', state) →
      ∃ sent sent',
        c'.outbound.sent = c.outbound.sent ++ sent ++ .response (.ok req.id .null) :: sent' ∧
        (responses sent).length = (requests before).length ∧
        ∀ resp ∈ responses sent', (∃ e, resp.body = .error e) ∨
          ∃ r ∈ requests after, r.method = shutdownMethod ∧ resp = .ok r.id .null := by
  refine ⟨fun hfit ↦ runServer_ok h hfit delayFirst, fun ending c' state hrun ↦ ?_⟩
  obtain ⟨hsent, -⟩ := runServer_finished h hopen hrun
  have hdown : (((.new : Session υ).final lib before).next lib (.request req)).down = true := by
    rw [Session.next, if_pos hreq]
  obtain ⟨sent, delay, later, hwritten, hlength⟩ := written_at lib delayFirst hreceived
  have hanswer : (((.new : Session υ).final lib before).answer lib req delay).2 = .ok req.id .null := by
    rw [Session.answer, if_pos hreq]
  rw [hwritten, hanswer, ← List.append_assoc] at hsent
  exact ⟨sent, _, hsent, hlength, fun resp hresp ↦ responses_of_down hdown later hresp⟩

theorem runServer_after_shutdown_late :
    ∃ ending c' state sent sent', runServer sampleLibrary (fun _ ↦ true)
        (Connection.new sampleLate : Connection ℕ) = .ok (ending, c', state) ∧
      c'.outbound.sent = sent ++ .response (.ok sampleShutdown.id .null) :: sent' ∧
      ∀ resp ∈ responses sent', ∃ e, resp.body = .error e := by
  have hreceived : messagesOf sampleLate = [.notification sampleOpen] ++ .request sampleShutdown ::
      [.request sampleFormatting] := rfl
  obtain ⟨hok, hresponses⟩ := runServer_after_shutdown sampleLibrary (fun _ ↦ true)
    (serving_new (ω := ℕ) sampleLate) rfl hreceived rfl
  obtain ⟨ending, c', state, hrun⟩ := hok textsFit_sampleLate
  obtain ⟨sent, sent', hsent, -, hresponses⟩ := hresponses ending c' state hrun
  refine ⟨ending, c', state, sent, sent', hrun, hsent, fun resp hresp ↦ ?_⟩
  refine (hresponses resp hresp).resolve_right ?_
  rintro ⟨req, hreq, hshutdown, -⟩
  obtain rfl : req = sampleFormatting := List.mem_singleton.mp hreq
  exact absurd hshutdown (by decide)

end Server

end LspServerTokio.FormatterServer
