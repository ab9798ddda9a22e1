import LspServerTokio.Foundation.Runs
import LspServerTokio.Steps

namespace LspServerTokio.System

open Foundation

variable {s s' : System}

/-- The receiver has returned the end of the stream, or the connection has been dropped. -/
def Closed (s : System) : Prop := s.endOfStream = true ∨ s.connected = false

/-- Some call waits, and neither a response nor a dropped sender will wake it. -/
def Waits (s : System) : Prop :=
  ∃ k id, s.phase k = some (.waiting id) ∧ (∀ reply, s.oneshot k ≠ .sent reply) ∧
    s.oneshot k ≠ .dropped

/-- On a closed connection with nothing left to write a call waits for an answer, and `drain_alive`
does not wake it either. -/
def Stranded (s : System) : Prop :=
  s.Closed ∧ s.queue = [] ∧ s.drain = .idle ∧ s.Waits ∧ s.drain.cancelled = false

/-- The connection is closed while a call waits and nothing is left to write, or the last write on a
closed connection succeeds while a call waits. -/
def LeavesWaiting (s : System) (a : Action) : Prop :=
  s.queue = [] ∧ s.Waits ∧
    ((a = .receiverEnd ∨ a = .dropConnection) ∧ s.drain = .idle ∨ a = .drainWrite .ok ∧ s.Closed)

theorem waits_of_waiting {k : ℕ} {id : RequestId} (hk : s.phase k = some (.waiting id))
    (ho : s.oneshot k = .waiting) : s.Waits :=
  ⟨k, id, hk, by simp [ho], by simp [ho]⟩

theorem waits_of (hphase : ∀ k id, s'.phase k = some (.waiting id) →
    s.phase k = some (.waiting id) ∧ (s'.oneshot k = .waiting → s.oneshot k = .waiting))
    (h : s'.Waits) : s.Waits := by
  obtain ⟨k, id, hk, hsent, hdropped⟩ := h
  obtain ⟨hk, hone⟩ := hphase k id hk
  have hw : s'.oneshot k = .waiting := by
    rcases ho : s'.oneshot k with _ | reply | _
    · rfl
    · exact absurd ho (hsent reply)
    · exact absurd ho hdropped
  exact waits_of_waiting hk (hone hw)

theorem waiting_of_insert {k j : ℕ} {p : Phase} {id : RequestId} (hp : ∀ id, p ≠ .waiting id)
    (h : s.phase.insert k p j = some (.waiting id)) : j ≠ k ∧ s.phase j = some (.waiting id) := by
  rcases Table.insert_eq_some.mp h with ⟨-, h⟩ | h
  · exact absurd h (hp id)
  · exact h

theorem waits_of_insert {k : ℕ} {p : Phase} (hp : ∀ id, p ≠ .waiting id)
    (hphase : s'.phase = s.phase.insert k p)
    (hone : ∀ j, j ≠ k → s'.oneshot j = .waiting → s.oneshot j = .waiting) (h : s'.Waits) :
    s.Waits := by
  refine waits_of (fun j id hj ↦ ?_) h
  obtain ⟨hne, hj⟩ := waiting_of_insert hp (hphase ▸ hj)
  exact ⟨hj, hone j hne⟩

theorem Stranded.mono (hclosed : s'.Closed → s.Closed) (hqueue : s'.queue = s.queue)
    (hdrain : s'.drain = s.drain) (hwaits : s'.Waits → s.Waits) (h : s'.Stranded) : s.Stranded :=
  ⟨hclosed h.1, hqueue ▸ h.2.1, hdrain ▸ h.2.2.1, hwaits h.2.2.2.1, hdrain ▸ h.2.2.2.2⟩

theorem not_stranded_of_not_idle (h : s.drain ≠ .idle) : ¬ s.Stranded := fun hs ↦ h hs.2.2.1

def Action.canLeave : Action → Bool
  | .receiverEnd | .dropConnection | .drainWrite .ok => true
  | _ => false

theorem not_canLeave_of_dropped {a : Action} {x : ℕ × RequestId} (h : s.dropped a = some x) :
    a.canLeave = false := by
  cases a <;> first | rfl | exact nomatch h

theorem not_leavesWaiting {a : Action} (ha : a.canLeave = false) : ¬ s.LeavesWaiting a := by
  rintro ⟨-, -, ⟨rfl | rfl, -⟩ | ⟨rfl, -⟩⟩ <;> cases ha

theorem leavesWaiting_of_close {a : Action} (ha : a = .receiverEnd ∨ a = .dropConnection) :
    s.LeavesWaiting a ↔ s.queue = [] ∧ s.drain = .idle ∧ s.Waits := by
  have hwrite : ¬ (a = .drainWrite .ok ∧ s.Closed) := by
    intro h
    obtain ⟨rfl, -⟩ := h
    rcases ha with ha | ha <;> exact nomatch ha
  simp only [LeavesWaiting, ha, hwrite, true_and, or_false, and_comm (a := s.Waits)]

/-- A step strands a call exactly in the two ways that `LeavesWaiting` lists. -/
theorem stranded_iff {a : Action} (hs : ¬ s.Stranded) (h : Step s a s') :
    s'.Stranded ↔ s.LeavesWaiting a := by
  cases h with
  | request | nextId | receive =>
    refine iff_of_false (hs ∘ .mono id rfl rfl ?_) (not_leavesWaiting rfl)
    exact waits_of_insert (by simp) rfl fun _ _ ↦ id
  | retry _ _ hnext =>
    refine iff_of_false (hs ∘ .mono id rfl rfl ?_) (not_leavesWaiting rfl)
    exact waits_of_insert (by rcases hnext with rfl | rfl <;> simp) rfl fun _ _ ↦ id
  | register =>
    refine iff_of_false (hs ∘ .mono id rfl rfl ?_) (not_leavesWaiting rfl)
    exact waits_of_insert (by simp) rfl fun j hne hj ↦ (if_neg hne).symm.trans hj
  | @drop a k i result ha hp =>
    refine iff_of_false (hs ∘ .mono id rfl rfl ?_) (not_leavesWaiting (not_canLeave_of_dropped ha))
    refine waits_of_insert (by simp) rfl fun j _ hj ↦ ?_
    simp only [finish, cleanup] at hj
    split_ifs at hj
    · exact absurd hj Oneshot.drop_ne_waiting
    · exact hj
  | enqueue | cancelOutgoing | sent =>
    refine iff_of_false (fun h ↦ ?_) (not_leavesWaiting rfl)
    simpa using h.2.1
  | routeDeliver =>
    refine iff_of_false (hs ∘ .mono id rfl rfl (waits_of fun j id hj ↦ ⟨hj, fun hw ↦ ?_⟩))
      (not_leavesWaiting rfl)
    dsimp only at hw
    split_ifs at hw
    · exact Oneshot.waiting_of_send hw
    · exact hw
  | send ha =>
    refine iff_of_false hs (not_leavesWaiting ?_)
    rcases ha with rfl | ⟨_, rfl⟩ <;> rfl
  | drainRecv | writeFailed | drainRecvNone | drainReturn =>
    exact iff_of_false (not_stranded_of_not_idle (by simp)) (not_leavesWaiting rfl)
  | written hd =>
    constructor
    · exact fun h ↦ ⟨h.2.1, h.2.2.2.1, .inr ⟨rfl, h.1⟩⟩
    · intro hall
      obtain ⟨hq, hw, ⟨h | h, -⟩ | ⟨-, hc⟩⟩ := hall
      · cases h
      · cases h
      · exact ⟨hc, hq, rfl, hw, rfl⟩
  | receiverEnd =>
    rw [leavesWaiting_of_close (.inl rfl)]
    constructor
    · exact fun h ↦ ⟨h.2.1, h.2.2.1, h.2.2.2.1⟩
    · intro hall
      obtain ⟨hq, hd, hw⟩ := hall
      exact ⟨.inl rfl, hq, hd, hw, congrArg Drain.cancelled hd⟩
  | dropConnection =>
    rw [leavesWaiting_of_close (.inr rfl)]
    constructor
    · exact fun h ↦ ⟨h.2.1, h.2.2.1, h.2.2.2.1⟩
    · intro hall
      obtain ⟨hq, hd, hw⟩ := hall
      exact ⟨.inr rfl, hq, hd, hw, congrArg Drain.cancelled hd⟩
  | _ => exact iff_of_false (hs ∘ .mono id rfl rfl id) (not_leavesWaiting rfl)

theorem not_stranded_init : ¬ init.Stranded := by
  rintro ⟨h | h, -⟩ <;> exact nomatch h

/-- All along a run no call is stranded on a closed connection if and only if the run never closes
the connection over a waiting call with nothing left to write, and never ends the writing on a
closed one while a call waits. -/
theorem never_stranded_iff (actions : List Action) :
    Always step (¬ Stranded ·) init actions ↔ Each step (¬ LeavesWaiting · ·) init actions :=
  always_iff_each (I := fun _ ↦ True) (fun _ _ ↦ trivial)
    (fun _ hs h ↦ not_congr (stranded_iff hs (step_of_eq_some h))) trivial not_stranded_init

/-- The message of a request is written, and then the other side closes its end. -/
def closedRun : List Action :=
  [.clientSender, .request 0, .nextId 0, .tryRegister 0, .enqueue 0, .drainRecv, .drainWrite .ok,
    .receiverEnd]

theorem stranded_closedRun : ∃ s, run step init closedRun = some s ∧ s.Stranded ∧
    ¬ Always step (¬ Stranded ·) init closedRun := by
  have hs : ∃ s, run step init closedRun = some s ∧ s.Stranded :=
    ⟨_, rfl, .inl rfl, rfl, rfl, waits_of_waiting (k := 0) rfl rfl, rfl⟩
  obtain ⟨s, hrun, hs⟩ := hs
  exact ⟨s, hrun, hs, fun h ↦ h closedRun [] s (List.append_nil _).symm hrun hs⟩

end LspServerTokio.System
