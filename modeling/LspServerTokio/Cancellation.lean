import LspServerTokio.Foundation.Runs
import LspServerTokio.Connection

namespace LspServerTokio.Cancellation

open Foundation

variable {ω : Type}

/-- The operations on a connection that concern the requests of the other side. -/
inductive Op
  | route (message : Message)
  | cancelIncoming (id : RequestId)
  | handleCancelRequest (notification : Notification)
  | complete (id : RequestId)
  | handleShutdown (id : RequestId)

def step (c : Connection ω) : Op → Connection ω
  | .route message => (c.route message).2.2
  | .cancelIncoming id => (c.cancelIncoming id).2
  | .handleCancelRequest notification => (c.handleCancelRequest notification).2
  | .complete id => (c.completeIncoming id).2
  | .handleShutdown id => (c.handleShutdown id).2

def run (c : Connection ω) (ops : List Op) : Connection ω := ops.foldl step c

/-- The request that a notification asks to cancel. -/
def cancelled (n : Notification) : Option RequestId :=
  if n.method = cancelRequestMethod then parseCancelParams n.params else none

namespace Op

def Cancels (id : RequestId) : Op → Prop
  | .route (.notification n) | .handleCancelRequest n => cancelled n = some id
  | .cancelIncoming i => i = id
  | _ => False

/-- The operation takes the entry of `id` away, or puts another one in its place. -/
def Replaces (id : RequestId) : Op → Prop
  | .route (.request r) => r.id = id
  | .complete i => i = id
  | _ => False

def ShutsDown : Op → Prop
  | .handleShutdown _ => True
  | _ => False

theorem Cancels.eq {op : Op} {i j : RequestId} (hi : op.Cancels i) (hj : op.Cancels j) : i = j := by
  rcases op with (_ | _ | _) | _ | _ | _ | _ <;>
    simp_all [Cancels]

theorem Cancels.not_shutsDown {op : Op} {i : RequestId} (hi : op.Cancels i) : ¬ op.ShutsDown := by
  rcases op with (_ | _ | _) | _ | _ | _ | _ <;> first | exact hi.elim | exact not_false

end Op

section Step

variable (c : Connection ω)

abbrev pending : Table RequestId Token := c.requestQueue.incoming.pending

/-- What an operation does to the tokens and to the table of incoming requests. -/
inductive Effect (tokens : Tokens) (table : Table RequestId Token) : Op → Prop
  | handOut (r : Request) : tokens = (c.tokens.child c.shutdownToken).2 →
      table = (pending c).insert r.id (c.tokens.child c.shutdownToken).1 →
      Effect tokens table (.route (.request r))
  | complete (id : RequestId) : tokens = c.tokens → table = (pending c).remove id →
      Effect tokens table (.complete id)
  | shutdown (id : RequestId) : tokens = c.tokens.cancel c.shutdownToken → table = pending c →
      Effect tokens table (.handleShutdown id)
  | cancel {op : Op} (id : RequestId) : (∀ i, op.Cancels i ↔ i = id) → (∀ i, ¬ op.Replaces i) →
      ¬ op.ShutsDown → tokens = (c.requestQueue.incoming.cancel id c.tokens).2 → table = pending c →
      Effect tokens table op
  | none {op : Op} : (∀ i, ¬ op.Cancels i) → (∀ i, ¬ op.Replaces i) → ¬ op.ShutsDown →
      tokens = c.tokens → table = pending c → Effect tokens table op

theorem send_keeps (message : Message) :
    (c.send message).2.tokens = c.tokens ∧ pending (c.send message).2 = pending c ∧
      (c.send message).2.shutdownToken = c.shutdownToken ∧
      (c.send message).2.lifecycleState = c.lifecycleState := by
  by_cases h : c.outbound.takes = some 0
  · rw [Connection.send_of_closed h]
    exact ⟨rfl, rfl, rfl, rfl⟩
  · rw [Connection.send_of_open h]
    exact ⟨rfl, rfl, rfl, rfl⟩

theorem handleShutdown_keeps (id : RequestId) :
    (c.handleShutdown id).2.tokens = c.tokens.cancel c.shutdownToken ∧
      pending (c.handleShutdown id).2 = pending c ∧
      (c.handleShutdown id).2.shutdownToken = c.shutdownToken ∧
      (c.handleShutdown id).2.lifecycleState = .shuttingDown := by
  have hsend := send_keeps { c with
    tokens := c.tokens.cancel c.shutdownToken, lifecycleState := .shuttingDown }
    (.response (.ok id .null))
  unfold Connection.handleShutdown
  dsimp only
  split <;> simpa only [*] using hsend

theorem routeResponse_keeps (resp : Response) :
    (c.routeResponse resp).2.2.tokens = c.tokens ∧
      pending (c.routeResponse resp).2.2 = pending c ∧
      (c.routeResponse resp).2.2.shutdownToken = c.shutdownToken := by
  unfold Connection.routeResponse
  split
  · exact ⟨rfl, rfl, rfl⟩
  · split
    · exact ⟨rfl, rfl, rfl⟩
    · split_ifs <;> exact ⟨rfl, rfl, rfl⟩

theorem route_of_not_cancelled {n : Notification} (h : cancelled n = none) :
    (c.route (.notification n)).2.2 = c := by
  unfold cancelled at h
  unfold Connection.route
  split_ifs at h ⊢ <;> simp_all

theorem route_of_cancelled {n : Notification} {id : RequestId} (h : cancelled n = some id) :
    c.route (.notification n) = (.cancelHandled, none,
      { c with tokens := (c.requestQueue.incoming.cancel id c.tokens).2 }) := by
  unfold cancelled at h
  split_ifs at h with hm
  simp only [Connection.route, if_pos hm, h]

theorem handleCancelRequest_of_not_cancelled {n : Notification} (h : cancelled n = none) :
    (c.handleCancelRequest n).2 = c := by
  unfold cancelled at h
  unfold Connection.handleCancelRequest
  split_ifs at h ⊢ <;> simp_all

theorem handleCancelRequest_of_cancelled {n : Notification} {id : RequestId}
    (h : cancelled n = some id) :
    (c.handleCancelRequest n).2 =
      { c with tokens := (c.requestQueue.incoming.cancel id c.tokens).2 } := by
  unfold cancelled at h
  split_ifs at h with hm
  simp only [Connection.handleCancelRequest, ne_eq, hm, not_true_eq_false, if_false, h]

theorem step_effect (op : Op) : Effect c (step c op).tokens (pending (step c op)) op := by
  cases op with
  | route message =>
    cases message with
    | request r => exact .handOut r rfl rfl
    | notification n =>
      rcases hn : cancelled n with _ | id
      · rw [step, route_of_not_cancelled c hn]
        exact .none (by simp [Op.Cancels, hn]) (fun _ ↦ not_false) not_false rfl rfl
      · rw [step, route_of_cancelled c hn]
        exact .cancel id (by simp [Op.Cancels, hn, eq_comm]) (fun _ ↦ not_false) not_false rfl rfl
    | response r =>
      obtain ⟨htokens, htable, -⟩ := routeResponse_keeps c r
      exact .none (fun _ ↦ not_false) (fun _ ↦ not_false) not_false htokens htable
  | cancelIncoming id =>
    exact .cancel id (fun _ ↦ eq_comm) (fun _ ↦ not_false) not_false rfl rfl
  | handleCancelRequest n =>
    rcases hn : cancelled n with _ | id
    · rw [step, handleCancelRequest_of_not_cancelled c hn]
      exact .none (by simp [Op.Cancels, hn]) (fun _ ↦ not_false) not_false rfl rfl
    · rw [step, handleCancelRequest_of_cancelled c hn]
      exact .cancel id (by simp [Op.Cancels, hn, eq_comm]) (fun _ ↦ not_false) not_false rfl rfl
  | complete id => exact .complete id rfl rfl
  | handleShutdown id =>
    obtain ⟨htokens, htable, -⟩ := handleShutdown_keeps c id
    exact .shutdown id htokens htable

theorem step_shutdownToken (op : Op) : (step c op).shutdownToken = c.shutdownToken := by
  cases op with
  | route message =>
    cases message with
    | request r => rfl
    | notification n =>
      rcases hn : cancelled n with _ | id
      · rw [step, route_of_not_cancelled c hn]
      · rw [step, route_of_cancelled c hn]
    | response r => exact (routeResponse_keeps c r).2.2
  | cancelIncoming id => rfl
  | handleCancelRequest n =>
    rcases hn : cancelled n with _ | id
    · rw [step, handleCancelRequest_of_not_cancelled c hn]
    · rw [step, handleCancelRequest_of_cancelled c hn]
  | complete id => rfl
  | handleShutdown id => exact (handleShutdown_keeps c id).2.2.1

/-- All tokens hang on the shutdown token, and those in the table have been made. -/
structure Registry : Prop where
  root : c.shutdownToken = ⟨0, []⟩
  size_pos : 0 < c.tokens.size
  cancelled_lt : ∀ n ∈ c.tokens.cancelled, n < c.tokens.size
  entry : ∀ i t, pending c i = some t → t.ancestors = [0] ∧ 0 < t.node ∧ t.node < c.tokens.size

/-- The token `t` was handed out with a request `i`, so no other entry holds it. -/
structure Issued (i : RequestId) (t : Token) : Prop where
  ancestors : t.ancestors = [0]
  node_pos : 0 < t.node
  node_lt : t.node < c.tokens.size
  only : ∀ j u, pending c j = some u → u.node = t.node → j = i ∧ u = t

variable {c}

theorem registry_new (receiver : List (Except IoError Message)) (outbound : Outbound) :
    Registry { (Connection.new receiver : Connection ω) with outbound } :=
  ⟨rfl, Nat.one_pos, fun _ h ↦ (List.not_mem_nil h).elim, fun _ _ h ↦ nomatch h⟩

theorem cancel_incoming (i : RequestId) :
    (∃ t, pending c i = some t ∧
      (c.requestQueue.incoming.cancel i c.tokens).2 = c.tokens.cancel t) ∨
    (pending c i = none ∧ (c.requestQueue.incoming.cancel i c.tokens).2 = c.tokens) := by
  rcases h : pending c i with _ | t
  · exact .inr ⟨rfl, by simp only [IncomingRequests.cancel, h]⟩
  · exact .inl ⟨t, rfl, by simp only [IncomingRequests.cancel, h]⟩

theorem size_le_step (op : Op) : c.tokens.size ≤ (step c op).tokens.size := by
  have he := step_effect c op
  generalize (step c op).tokens = tokens at he ⊢
  cases he with
  | handOut r ht => exact ht ▸ Nat.le_succ _
  | complete i ht | shutdown i ht | none _ _ _ ht => exact ht ▸ le_rfl
  | cancel i _ _ _ ht =>
    rw [ht]
    rcases cancel_incoming (c := c) i with ⟨t, -, h⟩ | ⟨-, h⟩ <;> rw [h]
    exact le_rfl

theorem registry_step (h : Registry c) (op : Op) : Registry (step c op) := by
  have hsize := size_le_step (c := c) op
  refine ⟨(step_shutdownToken c op).trans h.root, h.size_pos.trans_le hsize, ?_, ?_⟩
  · intro n hn
    have he := step_effect c op
    generalize (step c op).tokens = tokens at he hn hsize
    cases he with
    | handOut r ht => exact (h.cancelled_lt n (by rwa [ht] at hn)).trans_le hsize
    | complete i ht | none _ _ _ ht => exact (h.cancelled_lt n (by rwa [ht] at hn)).trans_le hsize
    | shutdown i ht =>
      rw [ht, h.root] at hn
      rcases List.mem_cons.mp hn with rfl | hn
      · exact h.size_pos.trans_le hsize
      · exact (h.cancelled_lt n hn).trans_le hsize
    | cancel i _ _ _ ht =>
      rw [ht] at hn
      rcases cancel_incoming (c := c) i with ⟨t, hi, he⟩ | ⟨-, he⟩
      · rw [he] at hn
        rcases List.mem_cons.mp hn with rfl | hn
        · exact (h.entry i t hi).2.2.trans_le hsize
        · exact (h.cancelled_lt n hn).trans_le hsize
      · exact (h.cancelled_lt n (by rwa [he] at hn)).trans_le hsize
  · intro j u hu
    have hkeep : pending c j = some u →
        u.ancestors = [0] ∧ 0 < u.node ∧ u.node < (step c op).tokens.size := fun hj ↦
      have hentry := h.entry j u hj
      ⟨hentry.1, hentry.2.1, hentry.2.2.trans_le hsize⟩
    have he := step_effect c op
    generalize pending (step c op) = table at he hu
    cases he with
    | handOut r ht htable =>
      rw [htable, Table.insert_eq_some] at hu
      rcases hu with ⟨-, rfl⟩ | ⟨-, hu⟩
      · rw [ht, h.root]
        exact ⟨rfl, h.size_pos, Nat.lt_succ_self _⟩
      · exact hkeep hu
    | complete i _ htable => exact hkeep (Table.remove_eq_some.mp (htable ▸ hu)).2
    | shutdown i _ htable | none _ _ _ _ htable | cancel i _ _ _ _ htable => exact hkeep (htable ▸ hu)

theorem isCancelled_step (h : Registry c) (op : Op) (t : Token) :
    (step c op).tokens.IsCancelled t ↔ (op.ShutsDown ∧ 0 ∈ t.node :: t.ancestors) ∨
      (∃ i u, op.Cancels i ∧ pending c i = some u ∧ u.node ∈ t.node :: t.ancestors) ∨
      c.tokens.IsCancelled t := by
  have he := step_effect c op
  generalize (step c op).tokens = tokens at he ⊢
  cases he with
  | handOut r ht => simp [ht, Op.ShutsDown, Op.Cancels]
  | complete i ht => simp [ht, Op.ShutsDown, Op.Cancels]
  | shutdown i ht => simp [ht, Op.ShutsDown, Op.Cancels, Tokens.isCancelled_cancel, h.root]
  | none hc _ hs ht => simp [ht, hs, hc]
  | cancel i hc _ hs ht =>
    simp only [ht, hs, hc, false_and, false_or]
    rcases cancel_incoming (c := c) i with ⟨u, hi, he⟩ | ⟨hi, he⟩ <;>
      simp [he, hi, Tokens.isCancelled_cancel]

theorem isCancelled_step_issued (h : Registry c) {i : RequestId} {t : Token} (ht : Issued c i t)
    (op : Op) : (step c op).tokens.IsCancelled t ↔
      op.ShutsDown ∨ (op.Cancels i ∧ pending c i = some t) ∨ c.tokens.IsCancelled t := by
  rw [isCancelled_step h, ht.ancestors]
  refine or_congr (by simp) (or_congr_left ⟨?_, fun ⟨hc, hi⟩ ↦ ⟨i, t, hc, hi, by simp⟩⟩)
  intro hall
  obtain ⟨j, u, hc, hj, hu⟩ := hall
  have hpos := (h.entry j u hj).2.1
  have hnode : u.node = t.node := by
    simp only [List.mem_cons, List.not_mem_nil, or_false] at hu
    omega
  obtain ⟨rfl, rfl⟩ := ht.only j u hj hnode
  exact ⟨hc, hj⟩

theorem issued_step {i : RequestId} {t : Token} (ht : Issued c i t) (op : Op) :
    Issued (step c op) i t ∧
      (pending (step c op) i = some t ↔ pending c i = some t ∧ ¬ op.Replaces i) := by
  have he := step_effect c op
  have hlt := ht.node_lt.trans_le (size_le_step (c := c) op)
  suffices hsuff : (∀ j u, pending (step c op) j = some u → u.node = t.node → j = i ∧ u = t) ∧
      (pending (step c op) i = some t ↔ pending c i = some t ∧ ¬ op.Replaces i) from
    ⟨⟨ht.ancestors, ht.node_pos, hlt, hsuff.1⟩, hsuff.2⟩
  generalize pending (step c op) = table at he ⊢
  cases he with
  | handOut r _ htable =>
    have hne : (c.tokens.child c.shutdownToken).1.node ≠ t.node := ht.node_lt.ne'
    rw [htable]
    simp only [Table.insert_eq_some, Op.Replaces]
    constructor
    · rintro j u (⟨-, rfl⟩ | ⟨-, hu⟩) he
      · exact absurd he hne
      · exact ht.only j u hu he
    · constructor
      · intro h
        rcases h with ⟨-, he⟩ | ⟨hi, hu⟩
        · exact absurd (congrArg Token.node he) hne
        · exact ⟨hu, fun he ↦ hi he.symm⟩
      · exact fun ⟨hu, hi⟩ ↦ .inr ⟨fun he ↦ hi he.symm, hu⟩
  | complete j _ htable =>
    rw [htable]
    simp only [Table.remove_eq_some, Op.Replaces, and_comm (a := pending c i = some t)]
    exact ⟨fun k u hu ↦ ht.only k u hu.2, and_congr_left fun _ ↦ not_congr eq_comm⟩
  | shutdown j _ htable =>
    rw [htable]
    exact ⟨ht.only, by simp [Op.Replaces]⟩
  | cancel j _ hr _ _ htable | none _ hr _ _ htable =>
    rw [htable]
    exact ⟨ht.only, by simp [hr]⟩

end Step

section Run

variable {c : Connection ω}

theorem registry_run (h : Registry c) (ops : List Op) : Registry (run c ops) := by
  induction ops generalizing c with
  | nil => exact h
  | cons op ops ih => exact ih (registry_step h op)

theorem issued_run {i : RequestId} {t : Token} (ht : Issued c i t) (ops : List Op) :
    Issued (run c ops) i t := by
  induction ops generalizing c with
  | nil => exact ht
  | cons op ops ih => exact ih (issued_step ht op).1

theorem isCancelled_run (h : Registry c) {i : RequestId} {t : Token} (ht : Issued c i t)
    (ops : List Op) : (run c ops).tokens.IsCancelled t ↔ (∃ op ∈ ops, op.ShutsDown) ∨
      (pending c i = some t ∧ Until (¬ ·.Replaces i) (·.Cancels i) ops) ∨
      c.tokens.IsCancelled t := by
  induction ops generalizing c with
  | nil => simp [run, until_nil]
  | cons op ops ih =>
    obtain ⟨ht', hentry⟩ := issued_step ht op
    have hrun := ih (registry_step h op) ht'
    rw [isCancelled_step_issued h ht, hentry] at hrun
    simp only [List.exists_mem_cons_iff, until_cons]
    refine hrun.trans ?_
    by_cases hi : pending c i = some t
    · simp only [hi, true_and, and_true]
      exact ⟨by rintro (h | h | h | h | h) <;> simp [h], by
        rintro ((h | h) | (h | h) | h) <;> simp [h]⟩
    · simp only [hi, false_and, and_false, false_or]
      rw [← or_assoc, or_comm (b := op.ShutsDown)]

theorem isCancelled_shutdownToken (h : Registry c) (ops : List Op) :
    (run c ops).tokens.IsCancelled c.shutdownToken ↔ (∃ op ∈ ops, op.ShutsDown) ∨
      c.tokens.IsCancelled c.shutdownToken := by
  induction ops generalizing c with
  | nil => simp [run]
  | cons op ops ih =>
    have hrun := ih (registry_step h op)
    have hnot : ¬ ∃ i u, op.Cancels i ∧ pending c i = some u ∧ u.node = 0 := by
      intro hall
      obtain ⟨i, u, -, hi, hu⟩ := hall
      exact (h.entry i u hi).2.1.ne' hu
    rw [step_shutdownToken, isCancelled_step h, h.root] at hrun
    simp only [List.mem_singleton, and_true, hnot, false_or] at hrun
    rw [List.exists_mem_cons_iff, h.root, or_assoc, or_left_comm]
    exact hrun

theorem issued_route (h : Registry c) (r : Request) :
    Issued (c.route (.request r)).2.2 r.id (c.tokens.child c.shutdownToken).1 := by
  refine ⟨by rw [h.root]; rfl, h.size_pos, Nat.lt_succ_self _, fun j u hu he ↦ ?_⟩
  rcases Table.insert_eq_some.mp hu with ⟨rfl, rfl⟩ | ⟨-, hu⟩
  · exact ⟨rfl, rfl⟩
  · exact absurd he (h.entry j u hu).2.2.ne

theorem shutdownToken_run (ops : List Op) : (run c ops).shutdownToken = c.shutdownToken := by
  induction ops generalizing c with
  | nil => rfl
  | cons op ops ih => exact ih.trans (step_shutdownToken c op)

/-- A request that is routed after the shutdown gets a token that is cancelled already. -/
theorem isCancelled_route (h : Registry c) (hroot : ¬ c.tokens.IsCancelled c.shutdownToken)
    (before : List Op) (r : Request) :
    ((run c before).route (.request r)).2.2.tokens.IsCancelled
        ((run c before).tokens.child (run c before).shutdownToken).1 ↔
      ∃ op ∈ before, op.ShutsDown := by
  have hfresh : (run c before).tokens.size ∉ (run c before).tokens.cancelled := fun hn ↦
    ((registry_run h before).cancelled_lt _ hn).false
  have hchild := Tokens.isCancelled_new_child (t := (run c before).shutdownToken) _ hfresh
  have hshut := isCancelled_shutdownToken h before
  rw [shutdownToken_run] at hchild ⊢
  exact hchild.trans (hshut.trans (or_iff_left hroot))

/-- The token that is handed out with a request of id `r.id` after the operations `before` is
cancelled after `after` if the connection was shut down in all this time, or if a cancellation named
the id while the entry was still the one made for this request. Nothing else cancels it, and nothing
but a shutdown cancels the shutdown token, whenever the channel closes. -/
theorem token_cancelled_iff (receiver : List (Except IoError Message)) (takes : Option ℕ)
    (before after : List Op) (r : Request) :
    let start : Connection ω := { Connection.new receiver with outbound := ⟨[], takes⟩ }
    ∃ t, ((run start before).route (.request r)).1 = .request r t ∧
      let c := run start (before ++ .route (.request r) :: after)
      (c.tokens.IsCancelled t ↔ (∃ op ∈ before ++ after, op.ShutsDown) ∨
        Until (¬ ·.Replaces r.id) (·.Cancels r.id) after) ∧
      (c.tokens.IsCancelled c.shutdownToken ↔ ∃ op ∈ before ++ after, op.ShutsDown) ∧
      ∀ op id, op.Cancels id → (step c op).tokens.IsCancelled t →
        c.tokens.IsCancelled t ∨ id = r.id ∧ pending c id = some t := by
  intro c₀
  have hnew : Registry c₀ := registry_new receiver ⟨[], takes⟩
  have hroot : ¬ c₀.tokens.IsCancelled c₀.shutdownToken := fun ⟨_, _, hn⟩ ↦ List.not_mem_nil hn
  clear_value c₀
  have hbefore := registry_run hnew before
  have hissued := issued_route hbefore r
  have hrun : run c₀ (before ++ .route (.request r) :: after) =
      run (run c₀ before |>.route (.request r)).2.2 after := List.foldl_append
  have hlate := issued_run hissued after
  have hentry : pending ((run c₀ before).route (.request r)).2.2 r.id =
      some ((run c₀ before).tokens.child (run c₀ before).shutdownToken).1 := Table.insert_self _ _ _
  have hroute : Registry ((run c₀ before).route (.request r)).2.2 :=
    registry_step hbefore (.route (.request r))
  refine ⟨((run c₀ before).tokens.child (run c₀ before).shutdownToken).1, rfl, ?_, ?_,
    fun op id hop ht ↦ ?_⟩
  · rw [hrun, isCancelled_run hroute hissued, hentry,
      isCancelled_route hnew hroot]
    simp only [true_and, List.mem_append, or_and_right, exists_or]
    rw [or_left_comm, or_comm (a := Until _ _ _),
      or_comm (a := ∃ op, op ∈ after ∧ op.ShutsDown)]
  · have hshut := isCancelled_shutdownToken hnew (before ++ .route (.request r) :: after)
    rw [shutdownToken_run, hshut]
    simp [hroot, Op.ShutsDown, or_and_right, exists_or]
  · rw [hrun] at ht ⊢
    rw [isCancelled_step_issued (registry_run hroute after) hlate] at ht
    rcases ht with h | ⟨h, hpending⟩ | h
    · exact absurd h hop.not_shutsDown
    · cases hop.eq h
      exact .inr ⟨rfl, hpending⟩
    · exact .inl h

end Run

end LspServerTokio.Cancellation
