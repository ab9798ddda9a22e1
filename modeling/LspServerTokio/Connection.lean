import LspServerTokio.ClientSender
import LspServerTokio.Lifecycle

namespace LspServerTokio

open Foundation

def initializeMethod : String := "initialize"

def initializedMethod : String := "initialized"

def exitMethod : String := "exit"

inductive IncomingMessage
  | request (r : Request) (token : Token)
  | notification (n : Notification)
  | cancelHandled
  | responseRouted
  | responseUnknown (r : Response)

/-- The channel to the drain task: what was sent through it, and how many more messages it takes
before the task is gone, if that ever happens. -/
structure Outbound where
  sent : List Message
  takes : Option ℕ

/-- A connection, with the tokens that it and its handlers share. The receiver holds what the stream
still brings before it ends. -/
structure Connection (ω : Type) where
  outbound : Outbound
  receiver : List (Except IoError Message)
  requestQueue : RequestQueue ω
  lifecycleState : LifecycleState
  shutdownToken : Token
  responseMap : Option (ResponseMap ω)
  tokens : Tokens

namespace Connection

variable {ω : Type}

def new (receiver : List (Except IoError Message)) : Connection ω where
  outbound := ⟨[], none⟩
  receiver := receiver
  requestQueue := .new
  lifecycleState := .uninitialized
  shutdownToken := Tokens.empty.new.1
  responseMap := none
  tokens := Tokens.empty.new.2

variable (c : Connection ω)

def send (message : Message) : Except IoError Unit × Connection ω :=
  match c.outbound.takes with
  | some 0 => (.error (.brokenPipe "connection closed"), c)
  | takes => (.ok (), { c with outbound := ⟨c.outbound.sent ++ [message], takes.map (· - 1)⟩ })

/-- Where a response goes, besides what `route` returns: to a sender of one of the two tables. -/
def routeResponse (resp : Response) : IncomingMessage × Option (ω × Response) × Connection ω :=
  match resp.id with
  | none => (.responseUnknown resp, none, c)
  | some id =>
    match (c.responseMap.filter fun m ↦ m.contains id).map fun m ↦ m.deliver id resp with
    | some (true, delivery, responseMap) =>
      (.responseRouted, delivery, { c with responseMap := some responseMap })
    | _ =>
      if c.requestQueue.outgoing.isPending id then
        let (_, delivery, outgoing) := c.requestQueue.outgoing.complete id resp
        (.responseRouted, delivery, { c with requestQueue := { c.requestQueue with outgoing } })
      else (.responseUnknown resp, none, c)

def route (message : Message) : IncomingMessage × Option (ω × Response) × Connection ω :=
  match message with
  | .request req =>
    let (token, tokens) := c.tokens.child c.shutdownToken
    let incoming := c.requestQueue.incoming.register req.id token
    (.request req token, none, { c with requestQueue := { c.requestQueue with incoming }, tokens })
  | .notification notif =>
    if notif.method = cancelRequestMethod then
      match parseCancelParams notif.params with
      | some id =>
        let (_, tokens) := c.requestQueue.incoming.cancel id c.tokens
        (.cancelHandled, none, { c with tokens })
      | none => (.notification notif, none, c)
    else (.notification notif, none, c)
  | .response resp => c.routeResponse resp

def cancelIncoming (id : RequestId) : Bool × Connection ω :=
  let (found, tokens) := c.requestQueue.incoming.cancel id c.tokens
  (found, { c with tokens })

def handleCancelRequest (notification : Notification) : Option Bool × Connection ω :=
  if notification.method ≠ cancelRequestMethod then (none, c)
  else
    match parseCancelParams notification.params with
    | none => (none, c)
    | some id =>
      let (found, tokens) := c.requestQueue.incoming.cancel id c.tokens
      (some found, { c with tokens })

/-- `json!({"id": id})` -/
def cancelParams (id : Value) : Value where
  json := .object [("id", id.json)]
  isValue := .object (List.pairwise_singleton _ _) (by simpa using id.isValue)

def cancelNotification (id : RequestId) : Notification :=
  ⟨cancelRequestMethod, some (cancelParams id.toValue)⟩

def cancel (id : RequestId) : Except IoError Bool × Connection ω :=
  match c.send (.notification (cancelNotification id)) with
  | (.error e, c) => (.error e, c)
  | (.ok (), c) =>
    let (found, outgoing) := c.requestQueue.outgoing.cancel id
    (.ok found, { c with requestQueue := { c.requestQueue with outgoing } })

/-- `request_queue.incoming.complete`, on the public field. -/
def completeIncoming (id : RequestId) : Bool × Connection ω :=
  let (found, incoming) := c.requestQueue.incoming.complete id
  (found, { c with requestQueue := { c.requestQueue with incoming } })

def notInitialized (id : RequestId) : Message :=
  .response (.err id (.new .serverNotInitialized "Server not yet initialized"))

/-- The loop of `initialize_start`, over what the receiver brings. -/
def initializeStartLoop (c : Connection ω) :
    List (Except IoError Message) → Except ProtocolError (RequestId × Value) × Connection ω
  | [] => (.error .disconnected, { c with receiver := [] })
  | .error e :: rest => (.error (.io e), { c with receiver := rest })
  | .ok (.request req) :: rest =>
    if req.method = initializeMethod then
      (.ok (req.id, req.params.getD .null),
        { c with lifecycleState := .initializing, receiver := rest })
    else
      match c.send (notInitialized req.id) with
      | (.error e, c) => (.error (.io e), { c with receiver := rest })
      | (.ok (), c) => c.initializeStartLoop rest
  | .ok (.notification notif) :: rest =>
    if notif.method = exitMethod then (.error .disconnected, { c with receiver := rest })
    else c.initializeStartLoop rest
  | .ok (.response _) :: rest => c.initializeStartLoop rest

def initializeStart : Except ProtocolError (RequestId × Value) × Connection ω :=
  c.initializeStartLoop c.receiver

/-- The loop of `initialize_finish`. The timer goes off when `timer` more messages have been
received, or never. -/
def initializeFinishLoop (c : Connection ω) :
    Option ℕ → List (Except IoError Message) → Except ProtocolError Unit × Connection ω
  | some 0, rest => (.error .initializeTimeout, { c with receiver := rest })
  | _, [] => (.error .disconnected, { c with receiver := [] })
  | _, .error e :: rest => (.error (.io e), { c with receiver := rest })
  | timer, .ok (.notification notif) :: rest =>
    if notif.method = initializedMethod then
      (.ok (), { c with lifecycleState := .running, receiver := rest })
    else c.initializeFinishLoop (timer.map (· - 1)) rest
  | timer, .ok (.request req) :: rest =>
    match c.send (notInitialized req.id) with
    | (.error e, c) => (.error (.io e), { c with receiver := rest })
    | (.ok (), c) => c.initializeFinishLoop (timer.map (· - 1)) rest
  | timer, .ok (.response _) :: rest => c.initializeFinishLoop (timer.map (· - 1)) rest

def initializeFinish (id : RequestId) (initializeResult : Value) (timer : Option ℕ) :
    Except ProtocolError Unit × Connection ω :=
  match c.send (.response (.ok id initializeResult)) with
  | (.error e, c) => (.error (.io e), c)
  | (.ok (), c) => c.initializeFinishLoop timer c.receiver

def handleShutdown (id : RequestId) : Except ProtocolError Unit × Connection ω :=
  let c := { c with tokens := c.tokens.cancel c.shutdownToken, lifecycleState := .shuttingDown }
  match c.send (.response (.ok id .null)) with
  | (.error e, c) => (.error (.io e), c)
  | (.ok (), c) => (.ok (), c)

def handleExit : ExitCode × Connection ω :=
  (if c.lifecycleState = .shuttingDown then .success else .error, { c with lifecycleState := .exited })

section Send

variable {c : Connection ω}

theorem send_of_closed (h : c.outbound.takes = some 0) (message : Message) :
    c.send message = (.error (.brokenPipe "connection closed"), c) := by
  simp only [Connection.send, h]

theorem send_of_open (h : c.outbound.takes ≠ some 0) (message : Message) :
    c.send message = (.ok (),
      { c with outbound := ⟨c.outbound.sent ++ [message], c.outbound.takes.map (· - 1)⟩ }) := by
  unfold Connection.send
  split
  · next ht => exact absurd ht h
  · rfl

end Send

section RouteResponse

variable {c : Connection ω} {resp : Response} {id : RequestId} {k : ω}

theorem routeResponse_call {m : ResponseMap ω} (hid : resp.id = some id)
    (hm : c.responseMap = some m) (hk : m.pending id = some k) :
    c.routeResponse resp = (.responseRouted, some (k, resp),
      { c with responseMap := some ⟨m.pending.remove id⟩ }) := by
  simp [Connection.routeResponse, hid, hm, ResponseMap.contains, hk, ResponseMap.deliver,
    Option.filter]

theorem routeResponse_outgoing (hid : resp.id = some id)
    (hm : ∀ m, c.responseMap = some m → m.pending id = none)
    (hn : c.requestQueue.outgoing.pending id = some k) :
    c.routeResponse resp = (.responseRouted, some (k, resp),
      { c with requestQueue := { c.requestQueue with
          outgoing := ⟨c.requestQueue.outgoing.pending.remove id⟩ } }) := by
  have hfilter : c.responseMap.filter (·.contains id) = none := by
    refine Option.filter_eq_none_iff.mpr fun m h ↦ ?_
    simp [ResponseMap.contains, hm m h]
  simp [Connection.routeResponse, hid, hfilter, OutgoingRequests.isPending, hn,
    OutgoingRequests.complete]

theorem routeResponse_unknown
    (hm : ∀ id m, resp.id = some id → c.responseMap = some m → m.pending id = none)
    (hn : ∀ id, resp.id = some id → c.requestQueue.outgoing.pending id = none) :
    c.routeResponse resp = (.responseUnknown resp, none, c) := by
  rcases hid : resp.id with _ | id
  · simp [Connection.routeResponse, hid]
  · have hfilter : c.responseMap.filter (·.contains id) = none := by
      refine Option.filter_eq_none_iff.mpr fun m h ↦ ?_
      simp [ResponseMap.contains, hm id m hid h]
    simp [Connection.routeResponse, hid, hfilter, OutgoingRequests.isPending, hn id hid]

end RouteResponse

end Connection

end LspServerTokio
