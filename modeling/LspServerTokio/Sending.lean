import LspServerTokio.Cancellation

namespace LspServerTokio

open Foundation Cancellation

inductive SendError
  | sendError

/-- `ClientSender::notify`. The channel is that of the connection. -/
def Connection.notify {ω : Type} (c : Connection ω) (method : String) (params : Option Value) :
    Except SendError Unit × Connection ω :=
  match c.send (.notification ⟨method, params⟩) with
  | (.error _, c) => (.error .sendError, c)
  | (.ok (), c) => (.ok (), c)

/-- `ClientSender::respond` -/
def Connection.respond {ω : Type} (c : Connection ω) (response : Response) :
    Except SendError Unit × Connection ω :=
  match c.send (.response response) with
  | (.error _, c) => (.error .sendError, c)
  | (.ok (), c) => (.ok (), c)

/-- `client_sender`, as far as the connection goes. -/
def Connection.clientSender {ω : Type} (c : Connection ω) : Connection ω :=
  match c.responseMap with
  | some _ => c
  | none => { c with responseMap := some .new }

section Messages

def requests (messages : List Message) : List Request :=
  messages.filterMap fun
    | .request req => some req
    | _ => none

def responses (messages : List Message) : List Response :=
  messages.filterMap fun
    | .response resp => some resp
    | _ => none

/-- The ids of the requests in what a receiver brings. -/
def requestedIds (items : List (Except IoError Message)) : List (Option RequestId) :=
  (requests (items.filterMap Except.toOption)).map fun req ↦ some req.id

theorem requests_append (first second : List Message) :
    requests (first ++ second) = requests first ++ requests second := List.filterMap_append

theorem responses_append (first second : List Message) :
    responses (first ++ second) = responses first ++ responses second := List.filterMap_append

theorem requestedIds_append (first second : List (Except IoError Message)) :
    requestedIds (first ++ second) = requestedIds first ++ requestedIds second := by
  rw [requestedIds, List.filterMap_append, requests_append, List.map_append]
  rfl

end Messages

namespace Outbound

/-- What becomes of the channel when a message is sent, whether it is taken or not. -/
def push (o : Outbound) (message : Message) : Outbound :=
  match o.takes with
  | some 0 => o
  | takes => ⟨o.sent ++ [message], takes.map (· - 1)⟩

def pushAll (o : Outbound) (messages : List Message) : Outbound := messages.foldl push o

theorem pushAll_append (o : Outbound) (first second : List Message) :
    o.pushAll (first ++ second) = (o.pushAll first).pushAll second := List.foldl_append

theorem pushAll_of_closed {o : Outbound} (h : o.takes = some 0) (messages : List Message) :
    o.pushAll messages = o := by
  induction messages with
  | nil => rfl
  | cons message messages ih =>
    have hpush : o.push message = o := by simp only [push, h]
    rw [pushAll, List.foldl_cons, hpush]
    exact ih

theorem takes_pushAll (o : Outbound) (messages : List Message) :
    (o.pushAll messages).takes = o.takes.map (· - messages.length) := by
  induction messages generalizing o with
  | nil => cases h : o.takes <;> simp [pushAll, h]
  | cons message messages ih =>
    rw [pushAll, List.foldl_cons, ← pushAll, ih]
    rcases o with ⟨sent, _ | _ | n⟩ <;> simp [push]

theorem sent_pushAll (o : Outbound) (messages : List Message) : (o.pushAll messages).sent =
    o.sent ++ o.takes.elim messages fun n ↦ messages.take n := by
  induction messages generalizing o with
  | nil => cases h : o.takes <;> simp [pushAll]
  | cons message messages ih =>
    rw [pushAll, List.foldl_cons, ← pushAll, ih]
    rcases o with ⟨sent, _ | _ | n⟩ <;> simp [push]

end Outbound

namespace Connection

variable {ω : Type} (c : Connection ω)

def pushing (messages : List Message) : Connection ω :=
  { c with outbound := c.outbound.pushAll messages }

@[simp] theorem pushing_nil : c.pushing [] = c := rfl

theorem pushing_pushing (first second : List Message) :
    (c.pushing first).pushing second = c.pushing (first ++ second) := by
  simp only [pushing, Outbound.pushAll_append]

theorem send_eq_pushing (message : Message) : (c.send message).2 = c.pushing [message] ∧
    (c.outbound.takes = some 0 ∧ c.pushing [message] = c ∨ (c.send message).1 = .ok ()) := by
  by_cases h : c.outbound.takes = some 0
  · rw [send_of_closed h, pushing, Outbound.pushAll_of_closed h]
    exact ⟨rfl, .inl ⟨h, rfl⟩⟩
  · rw [send_of_open h]
    refine ⟨?_, .inr rfl⟩
    rcases c with ⟨⟨sent, _ | _ | n⟩⟩
    · rfl
    · exact absurd rfl h
    · rfl

theorem notify_eq_pushing (method : String) (params : Option Value) :
    (c.notify method params).2 = c.pushing [.notification ⟨method, params⟩] := by
  rw [← (c.send_eq_pushing _).1, notify]
  split <;> simp only [*]

theorem respond_of_closed (h : c.outbound.takes = some 0) (response : Response) :
    c.respond response = (.error .sendError, c) := by
  rw [respond, send_of_closed h]

theorem respond_of_open (h : c.outbound.takes ≠ some 0) (response : Response) :
    c.respond response = (.ok (), c.pushing [.response response]) := by
  obtain ⟨hsend, hfail | hok⟩ := c.send_eq_pushing (.response response)
  · exact absurd hfail.1 h
  · have hs : c.send (.response response) = (.ok (), c.pushing [.response response]) := by
      rw [← hsend, ← hok]
    rw [respond, hs]

theorem handleShutdown_eq_pushing (id : RequestId) : (c.handleShutdown id).2 =
    ({ c with tokens := c.tokens.cancel c.shutdownToken, lifecycleState := .shuttingDown }).pushing
      [.response (.ok id .null)] := by
  have hsend := (send_eq_pushing { c with
    tokens := c.tokens.cancel c.shutdownToken, lifecycleState := .shuttingDown }
    (.response (.ok id .null))).1
  unfold handleShutdown
  dsimp only
  split <;> simpa only [*] using hsend

theorem route_keeps (message : Message) :
    (c.route message).2.2.outbound = c.outbound ∧
      (c.route message).2.2.lifecycleState = c.lifecycleState := by
  cases message with
  | request r => exact ⟨rfl, rfl⟩
  | notification n =>
    unfold route
    dsimp only
    split_ifs
    · split <;> exact ⟨rfl, rfl⟩
    · exact ⟨rfl, rfl⟩
  | response r =>
    simp only [route, routeResponse]
    split
    · exact ⟨rfl, rfl⟩
    · split
      · exact ⟨rfl, rfl⟩
      · split_ifs <;> exact ⟨rfl, rfl⟩

theorem route_of_not_cancelled {n : Notification} (h : cancelled n = none) :
    c.route (.notification n) = (.notification n, none, c) := by
  unfold cancelled at h
  unfold route
  split_ifs at h ⊢ <;> simp_all

theorem route_response (resp : Response) :
    (∃ delivery c', c.route (.response resp) = (.responseRouted, delivery, c')) ∨
      ∃ delivery c', c.route (.response resp) = (.responseUnknown resp, delivery, c') := by
  simp only [route, routeResponse]
  split
  · exact .inr ⟨_, _, rfl⟩
  · split
    · exact .inl ⟨_, _, rfl⟩
    · split_ifs
      · exact .inl ⟨_, _, rfl⟩
      · exact .inr ⟨_, _, rfl⟩

end Connection

end LspServerTokio
