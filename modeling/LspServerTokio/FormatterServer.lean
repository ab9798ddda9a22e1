import LspServerTokio.Documents
import LspServerTokio.Sending

namespace LspServerTokio

open Foundation

def shutdownMethod : String := "shutdown"

def methodNotFoundResponse (request : Request) : Response :=
  .err request.id (.new .methodNotFound ("Method not found: " ++ request.method))

def cancelledResponse (id : RequestId) : Response :=
  .err id (.new .requestCancelled "Request was cancelled")

namespace FormatterServer

inductive MessageType
  | info
  | log

structure DocumentFormattingParams (υ : Type) where
  textDocument : TextDocumentIdentifier υ

/-- What the server uses of `serde_json` on the types of `lsp_types`, and of the standard library on
characters. Writing fails with the text of an error. -/
structure Library (υ : Type) extends NotificationParams υ where
  documentFormatting : Value → Option (DocumentFormattingParams υ)
  textEdits : List TextEdit → Except String Value
  logMessageParams : MessageType → String → Except String Value
  debugUri : υ → String
  toUppercase : Char → List Char

inductive FormatError
  | cancelled
  | documentNotFound

/-- How `run_server` ends. Only `exit` ends the process from there. -/
inductive ServerEnd
  | disconnected
  | receiveFailed (e : IoError)
  | respondFailed
  | exit (code : ExitCode)

variable {υ ω : Type} [DecidableEq υ] (lib : Library υ)

def logMessage (c : Connection ω) (typ : MessageType) (message : String) : Connection ω :=
  match lib.logMessageParams typ message with
  | .ok value => (c.notify "window/logMessage" (some value)).2
  | .error _ => c

/-- Nothing is routed while the formatting lasts, so the token is cancelled from the beginning or not
at all. If it is, `delayFirst` says which branch of the `select!` comes first. -/
def formatDocument (c : Connection ω) (state : ServerState υ) (params : DocumentFormattingParams υ)
    (token : Token) (delayFirst : Bool) :
    Except TextPanic (Except FormatError (List TextEdit) × Connection ω) :=
  let uri := params.textDocument.uri
  match state.documents uri with
  | none => .ok (.error .documentNotFound, c)
  | some doc =>
    let c := logMessage lib c .log ("Formatting document: " ++ lib.debugUri uri)
    if c.tokens.IsCancelled token ∧ ¬ delayFirst then
      .ok (.error .cancelled, logMessage lib c .log "Formatting cancelled")
    else if c.tokens.IsCancelled token then .ok (.error .cancelled, c)
    else do
      let edits ← createUppercaseEdit lib.toUppercase doc.content
      let message := "Formatting complete: " ++ toString edits.length ++ " edits"
      return (.ok edits, logMessage lib c .log message)

/-- What `handle_request` makes of a formatting. -/
def formattingResponse (id : RequestId) : Except FormatError (List TextEdit) → Response
  | .ok edits =>
    match lib.textEdits edits with
    | .ok edits => .ok id edits
    | .error err => .err id (.new .internalError ("Failed to serialize formatting edits: " ++
        "expected JSON value, received serialization error: " ++ err))
  | .error .cancelled => cancelledResponse id
  | .error .documentNotFound => .err id (.new .invalidParams "Document not found")

def handleRequest (c : Connection ω) (state : ServerState υ) (req : Request) (token : Token)
    (delayFirst : Bool) : Except TextPanic (Response × Connection ω) :=
  if req.method = "textDocument/formatting" then
    match req.params.bind lib.documentFormatting with
    | none => .ok (.err req.id (.new .invalidParams "Invalid formatting params"), c)
    | some params => do
      let (result, c) ← formatDocument lib c state params token delayFirst
      return (formattingResponse lib req.id result, c)
  else .ok (methodNotFoundResponse req, c)

/-- The loop of `run_server`, over what the receiver brings. The answers of `delayFirst` are for the
requests in their order. -/
def serve (delayFirst : ℕ → Bool) (c : Connection ω) (state : ServerState υ) :
    List (Except IoError Message) → Except TextPanic (ServerEnd × Connection ω × ServerState υ)
  | [] => .ok (.disconnected, { c with receiver := [] }, state)
  | .error e :: rest => .ok (.receiveFailed e, { c with receiver := rest }, state)
  | .ok message :: rest =>
    match c.route message with
    | (.request req token, _, c) =>
      if req.method = shutdownMethod then serve delayFirst (c.handleShutdown req.id).2 state rest
      else do
        let (response, c) ← handleRequest lib c state req token (delayFirst 0)
        match c.respond response with
        | (.error _, c) => return (.respondFailed, { c with receiver := rest }, state)
        | (.ok (), c) => serve (fun n ↦ delayFirst (n + 1)) (c.completeIncoming req.id).2 state rest
    | (.notification notif, _, c) =>
      if notif.method = exitMethod then
        let (code, c) := c.handleExit
        .ok (.exit code, { c with receiver := rest }, state)
      else do
        let state ← handleNotification lib.toNotificationParams state notif
        serve delayFirst c state rest
    | (_, _, c) => serve delayFirst c state rest

def runServer (delayFirst : ℕ → Bool) (c : Connection ω) :
    Except TextPanic (ServerEnd × Connection ω × ServerState υ) :=
  serve lib delayFirst (logMessage lib c .info "Formatter server ready") .new c.receiver

end FormatterServer

end LspServerTokio
