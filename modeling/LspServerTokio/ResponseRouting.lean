import LspServerTokio.Waiters

namespace LspServerTokio.System

open Foundation

variable {s s' : System} {actions : List Action} {id : RequestId} {reply : Reply} {k n : ℕ}

def RegistersCall (k : ℕ) (id : RequestId) (s : System) (a : Action) : Prop :=
  a = .tryRegister k ∧ (∃ attempt, s.phase k = some (.generated attempt id)) ∧
    s.responseMap.pending id = none

def RegistersOutgoing (n : ℕ) (id : RequestId) (s : System) (a : Action) : Prop :=
  a = .registerOutgoing id ∧ s.waiters = n

/-- The waiter `n` is cancelled, or the id under which it waits is registered again. -/
def Supersedes (n : ℕ) (id : RequestId) (s : System) (a : Action) : Prop :=
  s.outgoing.pending id = some n ∧ (a = .cancelOutgoing id ∨ a = .registerOutgoing id)

section Place

theorem placed_of_run {a : Action} (hrun : run step init actions = some s)
    (h : step s a = some s') (ha : a.isRoute = true) :
    s'.routed = s.routed ∧ s.SameWaiters s' ∨
      ∃ reply p, s'.routed = s.routed ++ [(reply, p)] ∧ Arrives s reply p s' ∧
        (reply.response.id = none ∧ p = .unknown ∨ Decided actions s reply p) := by
  have hid := routingId_of_run hrun
  cases step_of_eq_some h with
  | routeBegin | routeFound | routeAbsent | routeGone => exact .inl ⟨rfl, rfl, rfl, rfl, rfl⟩
  | routeNull _ _ hnull => exact .inr ⟨_, _, rfl, .unknown ⟨rfl, rfl, rfl, rfl⟩, .inl ⟨hnull, rfl⟩⟩
  | @routeDeliver reply id k hr hm =>
    have hw := ((callWaiters_of_run hrun).entry id k hm).2
    refine .inr ⟨reply, .call k, rfl, .call (hid _ hr) hm rfl hw ?_ ?_ rfl rfl, .inr ?_⟩
    · simp [hw, Oneshot.send]
    · exact fun j hj ↦ if_neg hj
    · exact ⟨id, actions, [], s, hid _ hr, (List.append_nil _).symm, hrun, rfl, by rw [hr]; rfl,
        by rw [place, hm]⟩
  | @routeComplete reply id n hr hm =>
    have hw := (outgoingWaiters_of_run hrun).entry id n hm
    have hd := decided_of_complete hrun hr
    rw [outgoingPlace, hm] at hd
    refine .inr ⟨reply, .outgoing n, rfl, .outgoing (hid _ hr) hm rfl hw ?_ ?_ rfl rfl, .inr hd⟩
    · simp [hw, Oneshot.send]
    · exact fun j hj ↦ if_neg hj
  | @routeUnknown reply id hr hm =>
    have hd := decided_of_complete hrun hr
    rw [outgoingPlace, hm] at hd
    exact .inr ⟨reply, .unknown, rfl, .unknown ⟨rfl, rfl, rfl, rfl⟩, .inr hd⟩
  | drop hd =>
    rw [not_isRoute_of_dropped hd] at ha
    cases ha
  | send hs => rcases hs with rfl | ⟨_, rfl⟩ <;> cases ha
  | _ => cases ha

end Place

section Calls

/-- The entries of the response map, and the responses that calls have received, are under ids that
these calls have registered. -/
structure CallIds (actions : List Action) (s : System) : Prop where
  entry : ∀ id k, s.responseMap.pending id = some k →
    Sometime step (RegistersCall k id) init actions
  received : ∀ k reply, s.oneshot k = .sent reply → ∃ id, reply.response.id = some id ∧
    Sometime step (RegistersCall k id) init actions

namespace CallIds

theorem nil : CallIds [] init := ⟨fun _ _ h ↦ (by cases h), fun _ _ h ↦ (by cases h)⟩

theorem append (hs : CallIds actions s) (rest : List Action) : CallIds (actions ++ rest) s where
  entry id k hm := (hs.entry id k hm).append rest
  received k reply ho := by
    obtain ⟨id, hid, hr⟩ := hs.received k reply ho
    exact ⟨id, hid, hr.append rest⟩

theorem concat {a : Action} (hrun : run step init actions = some s) (hs : CallIds actions s)
    (h : s.step a = some s') : CallIds (actions ++ [a]) s' := by
  have hold := hs.append [a]
  have hn := (callWaiters_of_run hrun).numbered
  have hstep := step_of_eq_some h
  refine ⟨fun id k hk ↦ ?_, fun k reply ho ↦ ?_⟩
  · cases slotEffect hn hstep with
    | keep _ _ _ hmap | receive _ _ _ _ _ hmap => exact hold.entry id k (hmap ▸ hk)
    | @register i newId ha hp hm _ _ hmap =>
      rcases Table.insert_eq_some.mp (hmap ▸ hk) with ⟨rfl, rfl⟩ | ⟨-, hk⟩
      · exact .last hrun ⟨ha, hp, hm⟩
      · exact hold.entry id k hk
    | drop _ _ _ _ hmap | deliver _ _ _ _ _ hmap =>
      exact hold.entry id k (Table.remove_eq_some.mp (hmap ▸ hk)).2
  · rcases sent_step hn hstep ho with ho | ⟨id, hr, hm⟩
    · exact hold.received k reply ho
    · exact ⟨id, routingId_of_run hrun _ hr, hold.entry id k hm⟩

end CallIds

theorem callIds_of_run (h : run step init actions = some s) : CallIds actions s :=
  history_of_run CallIds.nil CallIds.concat h

end Calls

section Outgoing

/-- The entries of the outgoing queue, and the responses that waiters have received, are under the ids
for which these waiters were made; a waiter without a channel was superseded. -/
structure WaiterIds (actions : List Action) (s : System) : Prop where
  entry : ∀ id n, s.outgoing.pending id = some n →
    Sometime step (RegistersOutgoing n id) init actions
  received : ∀ n reply, s.outgoingOneshot n = .sent reply → ∃ id, reply.response.id = some id ∧
    Sometime step (RegistersOutgoing n id) init actions
  superseded : s.connected = true → ∀ n, s.outgoingOneshot n = .dropped →
    ∃ id, Sometime step (RegistersOutgoing n id) init actions ∧
      Sometime step (Supersedes n id) init actions

theorem outgoingSent_step {a : Action} (h : Step s a s') {n : ℕ} {reply : Reply}
    (ho : s'.outgoingOneshot n = .sent reply) : s.outgoingOneshot n = .sent reply ∨
      ∃ id, s.routing = some ⟨reply, id, .complete⟩ ∧ s.outgoing.pending id = some n := by
  cases h with
  | registerOutgoing | cancelOutgoing =>
    dsimp only at ho
    split_ifs at ho
    · exact .inl (Oneshot.sent_of_drop ho)
    · exact .inl ho
  | routeComplete hr hm =>
    dsimp only at ho
    split_ifs at ho with hn
    · rcases Oneshot.sent_of_send ho with ho | rfl
      · exact .inl ho
      · exact .inr ⟨_, hr, hn ▸ hm⟩
    · exact .inl ho
  | dropConnection => exact .inl (Oneshot.sent_of_drop ho)
  | _ => exact .inl ho

namespace WaiterIds

theorem nil : WaiterIds [] init :=
  ⟨fun _ _ h ↦ (by cases h), fun _ _ h ↦ (by cases h), fun _ _ h ↦ (by cases h)⟩

theorem append (hs : WaiterIds actions s) (rest : List Action) : WaiterIds (actions ++ rest) s where
  entry id n hm := (hs.entry id n hm).append rest
  received n reply ho := by
    obtain ⟨id, hid, hr⟩ := hs.received n reply ho
    exact ⟨id, hid, hr.append rest⟩
  superseded hc n hd := by
    obtain ⟨id, hr, hl⟩ := hs.superseded hc n hd
    exact ⟨id, hr.append rest, hl.append rest⟩

theorem concat {a : Action} (hrun : run step init actions = some s) (hs : WaiterIds actions s)
    (h : s.step a = some s') : WaiterIds (actions ++ [a]) s' := by
  have hold := hs.append [a]
  have hstep := step_of_eq_some h
  have hreceived : ∀ n reply, s'.outgoingOneshot n = .sent reply → ∃ id,
      reply.response.id = some id ∧ Sometime step (RegistersOutgoing n id) init (actions ++ [a]) := by
    intro n reply ho
    rcases outgoingSent_step hstep ho with ho | ⟨id, hr, hm⟩
    · exact hold.received n reply ho
    · exact ⟨id, routingId_of_run hrun _ hr, hold.entry id n hm⟩
  cases hstep with
  | @registerOutgoing id hf =>
    refine ⟨fun i n hi ↦ ?_, hreceived, fun hc n hd ↦ ?_⟩
    · rcases Table.insert_eq_some.mp hi with ⟨rfl, rfl⟩ | ⟨-, hi⟩
      · exact .last hrun ⟨rfl, rfl⟩
      · exact hold.entry i n hi
    · dsimp only at hd
      split_ifs at hd with hn hm
      · exact ⟨id, hold.entry id n hm, .last hrun ⟨hm, .inr rfl⟩⟩
      · exact hold.superseded hc n hd
  | @cancelOutgoing id hf =>
    refine ⟨fun i n hi ↦ hold.entry i n (Table.remove_eq_some.mp hi).2, hreceived, fun hc n hd ↦ ?_⟩
    dsimp only at hd
    split_ifs at hd with hm
    · exact ⟨id, hold.entry id n hm, .last hrun ⟨hm, .inl rfl⟩⟩
    · exact hold.superseded hc n hd
  | @routeComplete reply id m hr hm =>
    refine ⟨fun i n hi ↦ hold.entry i n (Table.remove_eq_some.mp hi).2, hreceived, fun hc n hd ↦ ?_⟩
    dsimp only at hd
    split_ifs at hd
    · exact hold.superseded hc n (Oneshot.dropped_of_send hd)
    · exact hold.superseded hc n hd
  | dropConnection => exact ⟨fun i n hi ↦ (nomatch hi), hreceived, fun hc ↦ nomatch hc⟩
  | _ => exact ⟨hold.entry, hreceived, hold.superseded⟩

end WaiterIds

theorem waiterIds_of_run (h : run step init actions = some s) : WaiterIds actions s :=
  history_of_run WaiterIds.nil WaiterIds.concat h

end Outgoing

/-- How the responses of a run have been routed. -/
structure RoutedOnce (actions : List Action) (s : System) : Prop where
  /-- The responses given to `route` are those that have been routed, in this order, and the one that
  is under way. -/
  given : outputs step taken init actions =
    s.routed.map Prod.fst ++ (s.routing.map Routing.reply).toList
  /-- Each step of a call of `route` leaves everyone who waits alone, or is the last one; then the
  response arrives at the place that the tables had for its id during that call. -/
  placed : ∀ before a after t t', actions = before ++ a :: after →
    run step init before = some t → step t a = some t' → a.isRoute = true →
    t'.routed = t.routed ∧ t.SameWaiters t' ∨
      ∃ reply p, t'.routed = t.routed ++ [(reply, p)] ∧ Arrives t reply p t' ∧
        (reply.response.id = none ∧ p = .unknown ∨ Decided before t reply p)
  /-- No one who waits is sent more than one response. -/
  once : ∀ p, p ≠ .unknown → (s.sentTo p).length ≤ 1
  calls : ∀ k, s.sentTo (.call k) = (s.oneshot k).received
  waiters : ∀ n, s.sentTo (.outgoing n) = (s.outgoingOneshot n).received
  callId : ∀ k reply, s.oneshot k = .sent reply → ∃ id, reply.response.id = some id ∧
    Sometime step (RegistersCall k id) init actions
  waiterId : ∀ n reply, s.outgoingOneshot n = .sent reply → ∃ id, reply.response.id = some id ∧
    Sometime step (RegistersOutgoing n id) init actions
  /-- As long as the connection exists, only a waiter that was superseded loses its channel. -/
  superseded : s.connected = true → ∀ n, s.outgoingOneshot n = .dropped →
    ∃ id, Sometime step (RegistersOutgoing n id) init actions ∧
      Sometime step (Supersedes n id) init actions

theorem responses_routed_once (h : run step init actions = some s) : RoutedOnce actions s where
  given := (given_of_run h).symm
  placed before a after t t' _ hrun ha := placed_of_run hrun ha
  once p hp := by
    cases p with
    | call k => exact (callWaiters_of_run h).received k ▸ Oneshot.length_received_le _
    | outgoing n => exact (outgoingWaiters_of_run h).received n ▸ Oneshot.length_received_le _
    | unknown => exact absurd rfl hp
  calls := (callWaiters_of_run h).received
  waiters := (outgoingWaiters_of_run h).received
  callId := (callIds_of_run h).received
  waiterId := (waiterIds_of_run h).received
  superseded := (waiterIds_of_run h).superseded

/-- One id is pending in both tables when three responses to it and one without an id come in. -/
def sharedIdRun : List Action :=
  [.clientSender, .request 0, .nextId 0, .tryRegister 0, .enqueue 0, .registerOutgoing firstId,
    .drainRecv, .drainWrite .ok, .peerAnswer 0 (.success .null),
    .peerSend ⟨some firstId, .success .null⟩, .peerSend ⟨some firstId, .success .null⟩,
    .peerSend ⟨none, .success .null⟩,
    .routeBegin 0, .routeContains, .routeDeliver, .routeBegin 0, .routeContains, .routeComplete,
    .routeBegin 0, .routeContains, .routeComplete, .routeBegin 0]

theorem routed_once_sharedIdRun : ∃ s, run step init sharedIdRun = some s ∧
    RoutedOnce sharedIdRun s ∧
    s.routed.map Prod.snd = [.call 0, .outgoing 0, .unknown, .unknown] := by
  have hrun : ∃ s, run step init sharedIdRun = some s ∧
      s.routed.map Prod.snd = [.call 0, .outgoing 0, .unknown, .unknown] := ⟨_, rfl, rfl⟩
  obtain ⟨s, hrun, hplaces⟩ := hrun
  exact ⟨s, hrun, responses_routed_once hrun, hplaces⟩

end LspServerTokio.System
