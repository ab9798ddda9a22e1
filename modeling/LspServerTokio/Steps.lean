import LspServerTokio.System

namespace LspServerTokio.System

open Foundation

/-- The call whose guard is still armed and is dropped by an action. -/
def dropped (s : System) : Action → Option (ℕ × RequestId)
  | .enqueue k =>
    match s.phase k with
    | some (.registered id) => if s.drain = .exited then some (k, id) else none
    | _ => none
  | .receive k =>
    match s.phase k, s.oneshot k with
    | some (.waiting id), .dropped => some (k, id)
    | _, _ => none
  | .drainExit k | .timeout k | .abort k =>
    match s.phase k with
    | some (.waiting id) => some (k, id)
    | _ => none
  | _ => none

/-- What the actions need and what they do. -/
inductive Step (s : System) : Action → System → Prop
  | clientSender : s.Free → Step s .clientSender { s with
      handles := s.handles ++ [⟨s.counters.length, true⟩]
      counters := s.counters ++ [.new]
      mapCreated := true }
  | cloneSender {h counter : ℕ} : s.handles[h]? = some ⟨counter, true⟩ →
      Step s (.cloneSender h) { s with handles := s.handles ++ [⟨counter, true⟩] }
  | dropSender {h counter : ℕ} : s.handles[h]? = some ⟨counter, true⟩ →
      (∀ k < s.started, s.sender k = h → (s.phase k).all Phase.isEnded) →
      Step s (.dropSender h) { s with handles := s.handles.set h ⟨counter, false⟩ }
  | request {h counter : ℕ} : s.handles[h]? = some ⟨counter, true⟩ →
      Step s (.request h) { s with
        started := s.started + 1
        sender := fun k ↦ if k = s.started then h else s.sender k
        phase := s.phase.insert s.started (.reserving 0) }
  | nextId {k attempt : ℕ} {handle : Handle} {current : IdCounter} {id : RequestId} :
      s.phase k = some (.reserving attempt) → s.handles[s.sender k]? = some handle →
      s.counters[handle.counter]? = some current → current.nextId = some id →
      Step s (.nextId k) { s with
        counters := s.counters.set handle.counter current.next
        phase := s.phase.insert k (.generated attempt id) }
  | register {k attempt : ℕ} {id : RequestId} : s.phase k = some (.generated attempt id) →
      s.responseMap.pending id = none →
      Step s (.tryRegister k) { s with
        responseMap := ⟨s.responseMap.pending.insert id k⟩
        oneshot := fun j ↦ if j = k then .waiting else s.oneshot j
        phase := s.phase.insert k (.registered id) }
  | retry {k attempt j : ℕ} {id : RequestId} {next : Phase} :
      s.phase k = some (.generated attempt id) → s.responseMap.pending id = some j →
      (next = .reserving (attempt + 1) ∨ next = .ended (.error (.io reserveError))) →
      Step s (.tryRegister k) { s with phase := s.phase.insert k next }
  | enqueue {k : ℕ} {id : RequestId} : s.phase k = some (.registered id) → s.drain ≠ .exited →
      Step s (.enqueue k) { s with
        queue := s.queue ++ [.request k id]
        phase := s.phase.insert k (.waiting id) }
  | receive {k : ℕ} {id : RequestId} {reply : Reply} : s.phase k = some (.waiting id) →
      s.oneshot k = .sent reply →
      Step s (.receive k) { s with phase := s.phase.insert k (.ended (.response reply)) }
  | drop {a : Action} {k : ℕ} {id : RequestId} {result : Ended} : s.dropped a = some (k, id) →
      (s.phase k = some (.registered id) ∨ s.phase k = some (.waiting id)) →
      (∀ reply, result ≠ .response reply) → Step s a (s.finish k (.new id) result)
  | routeNull {i : ℕ} {reply : Reply} : s.inbound[i]? = some reply → s.Free →
      reply.response.id = none →
      Step s (.routeBegin i) { s with
        inbound := s.inbound.eraseIdx i
        routed := s.routed ++ [(reply, .unknown)] }
  | routeBegin {i : ℕ} {reply : Reply} {id : RequestId} : s.inbound[i]? = some reply → s.Free →
      reply.response.id = some id →
      Step s (.routeBegin i) { s with
        inbound := s.inbound.eraseIdx i
        routing := some ⟨reply, id, .contains⟩ }
  | routeFound {reply : Reply} {id : RequestId} : s.routing = some ⟨reply, id, .contains⟩ →
      Step s .routeContains { s with routing := some ⟨reply, id, .deliver⟩ }
  | routeAbsent {reply : Reply} {id : RequestId} : s.routing = some ⟨reply, id, .contains⟩ →
      (s.mapCreated = false ∨ s.responseMap.pending id = none) →
      Step s .routeContains { s with
        routing := some ⟨reply, id, .complete⟩ }
  | routeDeliver {reply : Reply} {id : RequestId} {k : ℕ} :
      s.routing = some ⟨reply, id, .deliver⟩ → s.responseMap.pending id = some k →
      Step s .routeDeliver { s with
        responseMap := ⟨s.responseMap.pending.remove id⟩
        oneshot := fun j ↦ if j = k then (s.oneshot j).send reply else s.oneshot j
        routing := none
        routed := s.routed ++ [(reply, .call k)] }
  | routeGone {reply : Reply} {id : RequestId} :
      s.routing = some ⟨reply, id, .deliver⟩ → s.responseMap.pending id = none →
      Step s .routeDeliver { s with
        routing := some ⟨reply, id, .complete⟩ }
  | routeComplete {reply : Reply} {id : RequestId} {n : ℕ} :
      s.routing = some ⟨reply, id, .complete⟩ → s.outgoing.pending id = some n →
      Step s .routeComplete { s with
        outgoing := ⟨s.outgoing.pending.remove id⟩
        outgoingOneshot := fun m ↦
          if m = n then (s.outgoingOneshot m).send reply else s.outgoingOneshot m
        routing := none
        routed := s.routed ++ [(reply, .outgoing n)] }
  | routeUnknown {reply : Reply} {id : RequestId} :
      s.routing = some ⟨reply, id, .complete⟩ → s.outgoing.pending id = none →
      Step s .routeComplete { s with routing := none, routed := s.routed ++ [(reply, .unknown)] }
  | registerOutgoing {id : RequestId} : s.Free →
      Step s (.registerOutgoing id) { s with
        waiters := s.waiters + 1
        outgoing := ⟨s.outgoing.pending.insert id s.waiters⟩
        outgoingOneshot := fun n ↦
          if n = s.waiters then .waiting
          else if s.outgoing.pending id = some n then (s.outgoingOneshot n).drop
          else s.outgoingOneshot n }
  | cancelOutgoing {id : RequestId} : s.Free → s.drain ≠ .exited →
      Step s (.cancelOutgoing id) { s with
        queue := s.queue ++ [.other]
        outgoing := ⟨s.outgoing.pending.remove id⟩
        outgoingOneshot := fun n ↦
          if s.outgoing.pending id = some n then (s.outgoingOneshot n).drop else s.outgoingOneshot n }
  | send {a : Action} : (a = .send ∨ ∃ id, a = .cancelOutgoing id) → s.drain = .exited → Step s a s
  | sent : s.drain ≠ .exited → Step s .send { s with queue := s.queue ++ [.other] }
  | drainRecv {message : QueuedMessage} {queue : List QueuedMessage} : s.drain = .idle →
      s.queue = message :: queue → Step s .drainRecv { s with drain := .writing message, queue }
  | written {message : QueuedMessage} : s.drain = .writing message →
      Step s (.drainWrite .ok) { s with
        drain := .idle
        unanswered := s.unanswered ++ QueuedMessage.received message }
  | writeFailed {message : QueuedMessage} {reached : Bool} : s.drain = .writing message →
      Step s (.drainWrite (.error reached)) { s with
        drain := .returning
        unanswered := s.unanswered ++ if reached then QueuedMessage.received message else [] }
  | drainRecvNone : s.drain = .idle → s.queue = [] → s.connected = false →
      (∀ handle ∈ s.handles, handle.alive = false) →
      Step s .drainRecvNone { s with drain := .returning }
  | drainReturn : s.drain = .returning → Step s .drainReturn { s with drain := .exited, queue := [] }
  | peerAnswer {i k : ℕ} {id : RequestId} {body : ResponseBody} : s.unanswered[i]? = some (k, id) →
      s.endOfStream = false →
      Step s (.peerAnswer i body) { s with
        unanswered := s.unanswered.eraseIdx i
        inbound := s.inbound ++ [⟨⟨some id, body⟩, some k⟩] }
  | peerSend {response : Response} : s.endOfStream = false →
      Step s (.peerSend response) { s with inbound := s.inbound ++ [⟨response, none⟩] }
  | receiverEnd : s.Free → Step s .receiverEnd { s with endOfStream := true }
  | dropConnection : s.Free → Step s .dropConnection { s with
      connected := false
      outgoing := .new
      outgoingOneshot := fun n ↦ (s.outgoingOneshot n).drop }

variable {s s' : System}

theorem tryRegister_step {k : ℕ} (h : s.tryRegister k = some s') : Step s (.tryRegister k) s' := by
  unfold tryRegister at h
  split at h
  · next attempt id hp =>
    unfold ResponseMap.tryRegister at h
    rcases hm : s.responseMap.pending id with _ | j
    · simp only [hm, Option.some.injEq] at h
      exact h ▸ .register hp hm
    · simp only [hm] at h
      split_ifs at h <;> cases h
      · exact .retry hp hm (.inl rfl)
      · exact .retry hp hm (.inr rfl)
  · cases h

theorem enqueue_step {k : ℕ} (h : s.enqueue k = some s') : Step s (.enqueue k) s' := by
  unfold enqueue at h
  split at h
  · next id hp =>
    split_ifs at h with hd <;> cases h
    · exact .drop (by simp [dropped, hp, hd]) (.inl hp) (by simp)
    · exact .enqueue hp hd
  · cases h

theorem receive_step {k : ℕ} (h : s.receive k = some s') : Step s (.receive k) s' := by
  unfold receive at h
  split at h
  · next id hp =>
    split at h
    · next reply ho =>
      cases h
      have he : s.finish k (PendingResponseGuard.new id).disarm (.response reply) =
          { s with phase := s.phase.insert k (.ended (.response reply)) } := by
        simp [finish, cleanup, PendingResponseGuard.disarm, PendingResponseGuard.drop, Option.bind]
      exact he ▸ .receive hp ho
    · next ho =>
      cases h
      exact .drop (by simp [dropped, hp, ho]) (.inr hp) (by simp)
    · cases h
  · cases h

theorem drainExit_step {k : ℕ} (h : s.drainExit k = some s') : Step s (.drainExit k) s' := by
  unfold drainExit at h
  split at h
  · next id hp =>
    split_ifs at h
    cases h
    exact .drop (by simp [dropped, hp]) (.inr hp) (by simp)
  · cases h

theorem timeout_step {k : ℕ} (h : s.timeout k = some s') : Step s (.timeout k) s' := by
  unfold timeout at h
  split at h
  · next id hp =>
    cases h
    exact .drop (by simp [dropped, hp]) (.inr hp) (by simp)
  · cases h

theorem abort_step {k : ℕ} (h : s.abort k = some s') : Step s (.abort k) s' := by
  unfold abort at h
  split at h
  · next id hp =>
    cases h
    exact .drop (by simp [dropped, hp]) (.inr hp) (by simp)
  · cases h

theorem routeBegin_step {i : ℕ} (h : s.routeBegin i = some s') : Step s (.routeBegin i) s' := by
  unfold routeBegin at h
  split at h
  · next reply hi =>
    split_ifs at h with hf
    split at h <;> cases h
    · next hid => exact .routeNull hi hf hid
    · next id hid => exact .routeBegin hi hf hid
  · cases h

theorem routeContains_step (h : s.routeContains = some s') : Step s .routeContains s' := by
  unfold routeContains at h
  split at h
  · next reply id hr =>
    split_ifs at h with hc <;> cases h
    · exact .routeFound hr
    · refine .routeAbsent hr ?_
      rcases hm : s.mapCreated with _ | _
      · exact .inl rfl
      · exact .inr (by simpa [hm, ResponseMap.contains] using hc)
  · cases h

theorem routeDeliver_step (h : s.routeDeliver = some s') : Step s .routeDeliver s' := by
  unfold routeDeliver at h
  split at h
  · next reply id hr =>
    unfold ResponseMap.deliver at h
    rcases hm : s.responseMap.pending id with _ | k <;> simp only [hm, Option.some.injEq] at h
    · exact h ▸ .routeGone hr hm
    · exact h ▸ .routeDeliver hr hm
  · cases h

theorem routeComplete_step (h : s.routeComplete = some s') : Step s .routeComplete s' := by
  unfold routeComplete at h
  split at h
  · next reply id hr =>
    unfold OutgoingRequests.complete at h
    rcases hm : s.outgoing.pending id with _ | n <;> simp only [hm, Option.some.injEq] at h
    · exact h ▸ .routeUnknown hr hm
    · exact h ▸ .routeComplete hr hm
  · cases h

theorem cancelOutgoing_step {id : RequestId} (h : s.cancelOutgoing id = some s') :
    Step s (.cancelOutgoing id) s' := by
  unfold cancelOutgoing at h
  split_ifs at h with hf hd <;> cases h
  · exact .send (.inr ⟨id, rfl⟩) hd
  · exact .cancelOutgoing hf hd

theorem nextId_step {k : ℕ} (h : s.nextId k = some s') : Step s (.nextId k) s' := by
  unfold nextId at h
  split at h
  · next attempt hp =>
    simp only [Option.bind_eq_bind, Option.bind_eq_some_iff] at h
    obtain ⟨handle, hh, current, hc, id, hid, he⟩ := h
    cases he
    exact .nextId hp hh hc hid
  · cases h

theorem step_of_eq_some {a : Action} (h : s.step a = some s') : Step s a s' := by
  cases a with
  | clientSender =>
    simp only [step, clientSender] at h
    split_ifs at h with hf
    cases h
    exact .clientSender hf
  | cloneSender i =>
    simp only [step, cloneSender] at h
    split at h
    · next counter hi =>
      cases h
      exact .cloneSender hi
    · cases h
  | dropSender i =>
    simp only [step, dropSender] at h
    split at h
    · next counter hi =>
      split_ifs at h with hk
      cases h
      exact .dropSender hi hk
    · cases h
  | request i =>
    simp only [step, request] at h
    split at h
    · next counter hi =>
      cases h
      exact .request hi
    · cases h
  | nextId k => exact nextId_step h
  | tryRegister k => exact tryRegister_step h
  | enqueue k => exact enqueue_step h
  | receive k => exact receive_step h
  | drainExit k => exact drainExit_step h
  | timeout k => exact timeout_step h
  | abort k => exact abort_step h
  | routeBegin i => exact routeBegin_step h
  | routeContains => exact routeContains_step h
  | routeDeliver => exact routeDeliver_step h
  | routeComplete => exact routeComplete_step h
  | registerOutgoing id =>
    simp only [step, registerOutgoing] at h
    split_ifs at h with hf
    cases h
    exact .registerOutgoing hf
  | cancelOutgoing id => exact cancelOutgoing_step h
  | send =>
    simp only [step, send] at h
    split_ifs at h with hs hd <;> cases h
    · exact .send (.inl rfl) hd
    · exact .sent hd
  | drainRecv =>
    simp only [step, drainRecv] at h
    split at h
    · next message queue hd hq =>
      cases h
      exact .drainRecv hd hq
    · cases h
  | drainWrite result =>
    simp only [step, drainWrite] at h
    split at h
    · next message hd =>
      split at h <;> cases h
      · exact .written hd
      · exact .writeFailed hd
    · cases h
  | drainRecvNone =>
    simp only [step, drainRecvNone] at h
    split_ifs at h with hd
    cases h
    exact .drainRecvNone hd.1 hd.2.1 hd.2.2.1 hd.2.2.2
  | drainReturn =>
    simp only [step, drainReturn] at h
    split_ifs at h with hd
    cases h
    exact .drainReturn hd
  | peerAnswer i body =>
    simp only [step, peerAnswer] at h
    split at h
    · next k id hi =>
      split_ifs at h with he
      cases h
      exact .peerAnswer hi (by simpa using he)
    · cases h
  | peerSend response =>
    simp only [step, peerSend] at h
    split_ifs at h with he
    cases h
    exact .peerSend (by simpa using he)
  | receiverEnd =>
    simp only [step, receiverEnd] at h
    split_ifs at h with hf
    cases h
    exact .receiverEnd hf
  | dropConnection =>
    simp only [step, dropConnection] at h
    split_ifs at h with hf
    cases h
    exact .dropConnection hf

/-- A counter is made, or counted up once, or left alone. -/
theorem counters_step {a : Action} (h : Step s a s') :
    a = .clientSender ∧ s'.counters = s.counters ++ [.new] ∨
      (∃ k handle current id, a = .nextId k ∧
        ((∃ attempt, s.phase k = some (.reserving attempt)) ∧ s.handles[s.sender k]? = some handle) ∧
        s.counters[handle.counter]? = some current ∧ current.nextId = some id ∧
        s'.counters = s.counters.set handle.counter current.next) ∨
      (∀ k, a ≠ .nextId k) ∧ s'.counters = s.counters := by
  cases h with
  | clientSender => exact .inl ⟨rfl, rfl⟩
  | nextId hp hh hc hid => exact .inr (.inl ⟨_, _, _, _, rfl, ⟨⟨_, hp⟩, hh⟩, hc, hid, rfl⟩)
  | drop ha =>
    refine .inr (.inr ⟨?_, rfl⟩)
    rintro k rfl
    exact nomatch ha
  | send ha => rcases ha with rfl | ⟨_, rfl⟩ <;> exact .inr (.inr ⟨nofun, rfl⟩)
  | _ => exact .inr (.inr ⟨nofun, rfl⟩)

end LspServerTokio.System
