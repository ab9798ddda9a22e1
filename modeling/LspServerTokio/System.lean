import LspServerTokio.Connection

namespace LspServerTokio

open Foundation

/-- A response on its way, with the request call whose message it answers. -/
structure Reply where
  response : Response
  origin : Option ℕ

/-- A oneshot channel. Its sender is used up by sending, or dropped. -/
inductive Oneshot
  | waiting
  | sent (reply : Reply)
  | dropped

namespace Oneshot

def send (o : Oneshot) (reply : Reply) : Oneshot :=
  match o with
  | .waiting => .sent reply
  | o => o

def drop : Oneshot → Oneshot
  | .waiting => .dropped
  | o => o

variable {o : Oneshot} {reply r : Reply}

theorem waiting_of_send (h : o.send reply = .waiting) : o = .waiting := by
  cases o <;> first | rfl | exact nomatch h

theorem drop_ne_waiting : o.drop ≠ .waiting := by
  cases o <;> exact nofun

theorem sent_of_send (h : o.send r = .sent reply) : o = .sent reply ∨ r = reply := by
  cases o with
  | waiting => exact .inr (Oneshot.sent.inj h)
  | sent | dropped => exact .inl h

theorem sent_of_drop (h : o.drop = .sent reply) : o = .sent reply := by
  cases o <;> first | exact h | exact nomatch h

theorem dropped_of_send (h : o.send reply = .dropped) : o = .dropped := by
  cases o <;> first | rfl | exact nomatch h

end Oneshot

inductive Ended
  | response (reply : Reply)
  | error (e : ProtocolError)
  | aborted

/-- Where a call is: it reserves a slot, then sends its message, then waits. -/
inductive Phase
  | reserving (attempt : ℕ)
  | generated (attempt : ℕ) (id : RequestId)
  | registered (id : RequestId)
  | waiting (id : RequestId)
  | ended (result : Ended)

def Phase.isEnded : Phase → Bool
  | .ended _ => true
  | _ => false

inductive QueuedMessage
  | request (call : ℕ) (id : RequestId)
  | other
  deriving DecidableEq

/-- The drain task. It cancels `drain_alive` before its end of the channel goes away. -/
inductive Drain
  | idle
  | writing (message : QueuedMessage)
  | returning
  | exited
  deriving DecidableEq

def Drain.cancelled : Drain → Bool
  | .returning | .exited => true
  | _ => false

/-- A failed write may still have reached the other side. -/
inductive WriteResult
  | ok
  | error (reached : Bool)
  deriving DecidableEq

/-- A `ClientSender`, by the counter that it shares with its clones. -/
structure Handle where
  counter : ℕ
  alive : Bool
  deriving DecidableEq

/-- Where a response goes: to a call, to a waiter of the outgoing queue, or back to the caller. -/
inductive Place
  | call (k : ℕ)
  | outgoing (n : ℕ)
  | unknown
  deriving DecidableEq

/-- The next access of a `route` call to the tables. -/
inductive RouteStep
  | contains
  | deliver
  | complete

structure Routing where
  reply : Reply
  id : RequestId
  next : RouteStep

/-- A connection, its handles, the calls made through them, the drain task, and the other side with
what it has still to answer and the responses that have still to be routed. Calls and waiters of the
outgoing queue are numbered, and so are their channels. -/
structure System where
  handles : List Handle
  counters : List IdCounter
  started : ℕ
  sender : ℕ → ℕ
  phase : Table ℕ Phase
  oneshot : ℕ → Oneshot
  responseMap : ResponseMap ℕ
  mapCreated : Bool
  queue : List QueuedMessage
  drain : Drain
  unanswered : List (ℕ × RequestId)
  inbound : List Reply
  connected : Bool
  endOfStream : Bool
  waiters : ℕ
  outgoing : OutgoingRequests ℕ
  outgoingOneshot : ℕ → Oneshot
  routing : Option Routing
  routed : List (Reply × Place)

namespace System

def init : System where
  handles := []
  counters := []
  started := 0
  sender := fun _ ↦ 0
  phase := .empty
  oneshot := fun _ ↦ .waiting
  responseMap := .new
  mapCreated := false
  queue := []
  drain := .idle
  unanswered := []
  inbound := []
  connected := true
  endOfStream := false
  waiters := 0
  outgoing := .new
  outgoingOneshot := fun _ ↦ .waiting
  routing := none
  routed := []

variable (s : System)

/-- The connection exists and no call that needs it exclusively is under way. -/
def Free : Prop := s.connected = true ∧ s.routing = none

instance (s : System) : Decidable s.Free :=
  match h : s.connected, hr : s.routing with
  | true, none => .isTrue ⟨h, hr⟩
  | false, _ => .isFalse fun hf ↦ by simp [hf.1] at h
  | _, some _ => .isFalse fun hf ↦ by simp [hf.2] at hr

section Handles

def clientSender : Option System :=
  if s.Free then
    some { s with
      handles := s.handles ++ [⟨s.counters.length, true⟩]
      counters := s.counters ++ [.new]
      mapCreated := true }
  else none

def cloneSender (h : ℕ) : Option System :=
  match s.handles[h]? with
  | some ⟨counter, true⟩ => some { s with handles := s.handles ++ [⟨counter, true⟩] }
  | _ => none

/-- A handle can go away when no call borrows it. -/
def dropSender (h : ℕ) : Option System :=
  match s.handles[h]? with
  | some ⟨counter, true⟩ =>
    if ∀ k < s.started, s.sender k = h → (s.phase k).all Phase.isEnded then
      some { s with handles := s.handles.set h ⟨counter, false⟩ }
    else none
  | _ => none

end Handles

section Calls

def cleanup (guard : PendingResponseGuard) : System :=
  { s with
    responseMap := guard.drop s.responseMap
    oneshot := fun k ↦
      if guard.id.bind s.responseMap.pending = some k then (s.oneshot k).drop else s.oneshot k }

def finish (k : ℕ) (guard : PendingResponseGuard) (result : Ended) : System :=
  { s.cleanup guard with phase := s.phase.insert k (.ended result) }

def request (h : ℕ) : Option System :=
  match s.handles[h]? with
  | some ⟨_, true⟩ =>
    some { s with
      started := s.started + 1
      sender := fun k ↦ if k = s.started then h else s.sender k
      phase := s.phase.insert s.started (.reserving 0) }
  | _ => none

/-- `ClientSender::next_id`, one atomic update. -/
def nextId (k : ℕ) : Option System :=
  match s.phase k with
  | some (.reserving attempt) => do
    let handle ← s.handles[s.sender k]?
    let current ← s.counters[handle.counter]?
    let id ← current.nextId
    return { s with
      counters := s.counters.set handle.counter current.next
      phase := s.phase.insert k (.generated attempt id) }
  | _ => none

/-- `ResponseMap::try_register`, with the loop of `reserve_request_slot` around it. -/
def tryRegister (k : ℕ) : Option System :=
  match s.phase k with
  | some (.generated attempt id) =>
    match s.responseMap.tryRegister id k with
    | some responseMap =>
      some { s with
        responseMap
        oneshot := fun j ↦ if j = k then .waiting else s.oneshot j
        phase := s.phase.insert k (.registered id) }
    | none =>
      if attempt + 1 < maxRetries then
        some { s with phase := s.phase.insert k (.reserving (attempt + 1)) }
      else some { s with phase := s.phase.insert k (.ended (.error (.io reserveError))) }
  | _ => none

/-- The message goes to the drain task, unless its end of the channel is gone. -/
def enqueue (k : ℕ) : Option System :=
  match s.phase k with
  | some (.registered id) =>
    if s.drain = .exited then some (s.finish k (.new id) (.error .disconnected))
    else
      some { s with
        queue := s.queue ++ [.request k id]
        phase := s.phase.insert k (.waiting id) }
  | _ => none

/-- The call is polled and its receiver is ready. -/
def receive (k : ℕ) : Option System :=
  match s.phase k with
  | some (.waiting id) =>
    match s.oneshot k with
    | .sent reply => some (s.finish k (PendingResponseGuard.new id).disarm (.response reply))
    | .dropped => some (s.finish k (.new id) (.error .disconnected))
    | .waiting => none
  | _ => none

/-- The call is polled and `drain_alive` is cancelled. -/
def drainExit (k : ℕ) : Option System :=
  match s.phase k with
  | some (.waiting id) =>
    if s.drain.cancelled then some (s.finish k (.new id) (.error .disconnected)) else none
  | _ => none

def timeout (k : ℕ) : Option System :=
  match s.phase k with
  | some (.waiting id) => some (s.finish k (.new id) (.error .requestTimeout))
  | _ => none

def abort (k : ℕ) : Option System :=
  match s.phase k with
  | some (.waiting id) => some (s.finish k (.new id) .aborted)
  | _ => none

end Calls

section Routes

/-- `Connection::route` is called on a response. One without an id comes back at once. -/
def routeBegin (i : ℕ) : Option System :=
  match s.inbound[i]? with
  | some reply =>
    if s.Free then
      match reply.response.id with
      | none =>
        some { s with
          inbound := s.inbound.eraseIdx i
          routed := s.routed ++ [(reply, .unknown)] }
      | some id =>
        some { s with
          inbound := s.inbound.eraseIdx i
          routing := some ⟨reply, id, .contains⟩ }
    else none
  | none => none

/-- `response_map.contains`, if there is a response map. -/
def routeContains : Option System :=
  match s.routing with
  | some ⟨reply, id, .contains⟩ =>
    if s.mapCreated && s.responseMap.contains id then
      some { s with routing := some ⟨reply, id, .deliver⟩ }
    else
      some { s with routing := some ⟨reply, id, .complete⟩ }
  | _ => none

def routeDeliver : Option System :=
  match s.routing with
  | some ⟨reply, id, .deliver⟩ =>
    match s.responseMap.deliver id reply with
    | (true, some (k, reply), responseMap) =>
      some { s with
        responseMap
        oneshot := fun j ↦ if j = k then (s.oneshot j).send reply else s.oneshot j
        routing := none
        routed := s.routed ++ [(reply, .call k)] }
    | _ => some { s with routing := some ⟨reply, id, .complete⟩ }
  | _ => none

/-- `outgoing.is_pending` and `outgoing.complete`, on a table that no one else can reach. -/
def routeComplete : Option System :=
  match s.routing with
  | some ⟨reply, id, .complete⟩ =>
    match s.outgoing.complete id reply with
    | (true, some (n, reply), outgoing) =>
      some { s with
        outgoing
        outgoingOneshot := fun m ↦ if m = n then (s.outgoingOneshot m).send reply else s.outgoingOneshot m
        routing := none
        routed := s.routed ++ [(reply, .outgoing n)] }
    | _ => some { s with routing := none, routed := s.routed ++ [(reply, .unknown)] }
  | _ => none

end Routes

section Outgoing

/-- `OutgoingRequests::register`. A sender that was there before is dropped. -/
def registerOutgoing (id : RequestId) : Option System :=
  if s.Free then
    some { s with
      waiters := s.waiters + 1
      outgoing := s.outgoing.register id s.waiters
      outgoingOneshot := fun n ↦
        if n = s.waiters then .waiting
        else if s.outgoing.pending id = some n then (s.outgoingOneshot n).drop
        else s.outgoingOneshot n }
  else none

/-- `Connection::cancel`. If the notification cannot be sent nothing changes. -/
def cancelOutgoing (id : RequestId) : Option System :=
  if s.Free then
    if s.drain = .exited then some s
    else
      some { s with
        queue := s.queue ++ [.other]
        outgoing := (s.outgoing.cancel id).2
        outgoingOneshot := fun n ↦
          if s.outgoing.pending id = some n then (s.outgoingOneshot n).drop else s.outgoingOneshot n }
  else none

/-- A message other than a request call's, through the connection or a handle. -/
def send : Option System :=
  if s.connected ∨ ∃ handle ∈ s.handles, handle.alive then
    if s.drain = .exited then some s else some { s with queue := s.queue ++ [.other] }
  else none

end Outgoing

section DrainTask

def drainRecv : Option System :=
  match s.drain, s.queue with
  | .idle, message :: queue => some { s with drain := .writing message, queue }
  | _, _ => none

def QueuedMessage.received : QueuedMessage → List (ℕ × RequestId)
  | .request k id => [(k, id)]
  | .other => []

def drainWrite (result : WriteResult) : Option System :=
  match s.drain with
  | .writing message =>
    match result with
    | .ok =>
      some { s with drain := .idle, unanswered := s.unanswered ++ QueuedMessage.received message }
    | .error reached =>
      some { s with
        drain := .returning
        unanswered := s.unanswered ++ if reached then QueuedMessage.received message else [] }
  | _ => none

/-- The channel is empty and all its senders are gone. -/
def drainRecvNone : Option System :=
  if s.drain = .idle ∧ s.queue = [] ∧ s.connected = false ∧ ∀ handle ∈ s.handles, handle.alive = false
  then some { s with drain := .returning } else none

def drainReturn : Option System :=
  if s.drain = .returning then some { s with drain := .exited, queue := [] } else none

end DrainTask

section Ends

/-- The other side answers a request, with the id of that request. -/
def peerAnswer (i : ℕ) (body : ResponseBody) : Option System :=
  match s.unanswered[i]? with
  | some (k, id) =>
    if s.endOfStream then none
    else
      some { s with
        unanswered := s.unanswered.eraseIdx i
        inbound := s.inbound ++ [⟨⟨some id, body⟩, some k⟩] }
  | none => none

/-- The other side sends a response that answers no request call. -/
def peerSend (response : Response) : Option System :=
  if s.endOfStream then none else some { s with inbound := s.inbound ++ [⟨response, none⟩] }

def receiverEnd : Option System :=
  if s.Free then some { s with endOfStream := true } else none

/-- The senders of the outgoing queue go away with the connection. -/
def dropConnection : Option System :=
  if s.Free then
    some { s with
      connected := false
      outgoing := .new
      outgoingOneshot := fun n ↦ (s.outgoingOneshot n).drop }
  else none

end Ends

inductive Action
  | clientSender
  | cloneSender (h : ℕ)
  | dropSender (h : ℕ)
  | request (h : ℕ)
  | nextId (k : ℕ)
  | tryRegister (k : ℕ)
  | enqueue (k : ℕ)
  | receive (k : ℕ)
  | drainExit (k : ℕ)
  | timeout (k : ℕ)
  | abort (k : ℕ)
  | routeBegin (i : ℕ)
  | routeContains
  | routeDeliver
  | routeComplete
  | registerOutgoing (id : RequestId)
  | cancelOutgoing (id : RequestId)
  | send
  | drainRecv
  | drainWrite (result : WriteResult)
  | drainRecvNone
  | drainReturn
  | peerAnswer (i : ℕ) (body : ResponseBody)
  | peerSend (response : Response)
  | receiverEnd
  | dropConnection

def step : System → Action → Option System
  | s, .clientSender => s.clientSender
  | s, .cloneSender h => s.cloneSender h
  | s, .dropSender h => s.dropSender h
  | s, .request h => s.request h
  | s, .nextId k => s.nextId k
  | s, .tryRegister k => s.tryRegister k
  | s, .enqueue k => s.enqueue k
  | s, .receive k => s.receive k
  | s, .drainExit k => s.drainExit k
  | s, .timeout k => s.timeout k
  | s, .abort k => s.abort k
  | s, .routeBegin i => s.routeBegin i
  | s, .routeContains => s.routeContains
  | s, .routeDeliver => s.routeDeliver
  | s, .routeComplete => s.routeComplete
  | s, .registerOutgoing id => s.registerOutgoing id
  | s, .cancelOutgoing id => s.cancelOutgoing id
  | s, .send => s.send
  | s, .drainRecv => s.drainRecv
  | s, .drainWrite result => s.drainWrite result
  | s, .drainRecvNone => s.drainRecvNone
  | s, .drainReturn => s.drainReturn
  | s, .peerAnswer i body => s.peerAnswer i body
  | s, .peerSend response => s.peerSend response
  | s, .receiverEnd => s.receiverEnd
  | s, .dropConnection => s.dropConnection

theorem one_mem_i32 : -2 ^ 31 ≤ (1 : ℤ) ∧ (1 : ℤ) < 2 ^ 31 := by decide

def firstId : RequestId := .integer ⟨1, one_mem_i32⟩

end System

end LspServerTokio
