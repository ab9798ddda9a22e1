import LspServerTokio.Foundation.Runs
import LspServerTokio.Cancellation
import LspServerTokio.Handshake

namespace LspServerTokio.LifecycleOrder

open Foundation Connection Handshake

variable {ω : Type}

/-- The place of a phase in the order of the documentation. -/
def rank : LifecycleState → ℕ
  | .uninitialized => 0
  | .initializing => 1
  | .running => 2
  | .shuttingDown => 3
  | .exited => 4

theorem eq_exited {state : LifecycleState} (h : rank .exited ≤ rank state) : state = .exited := by
  cases state with
  | exited => rfl
  | uninitialized | initializing | running | shuttingDown => exact absurd h (by decide)

inductive Call
  | initializeStart
  | initializeFinish (id : RequestId) (initializeResult : Value) (timer : Option ℕ)
  | handleShutdown (id : RequestId)
  | handleExit

def Call.phase : Call → LifecycleState
  | .initializeStart => .initializing
  | .initializeFinish .. => .running
  | .handleShutdown _ => .shuttingDown
  | .handleExit => .exited

def called (c : Connection ω) : Call → Connection ω
  | .initializeStart => c.initializeStart.2
  | .initializeFinish id initializeResult timer => (c.initializeFinish id initializeResult timer).2
  | .handleShutdown id => (c.handleShutdown id).2
  | .handleExit => c.handleExit.2

/-- Every call can be made at any time. -/
def step (c : Connection ω) (call : Call) : Option (Connection ω) := some (called c call)

/-- A new connection, with what its peer will send and what its channel will take. A stream that
ends and then goes on is, as far as the phases go, one with an error in place of that end. -/
def start (receiver : List Item) (takes : Option ℕ) : Connection ω :=
  { Connection.new receiver with outbound := ⟨[], takes⟩ }

section Reached

def Sendable (takes : Option ℕ) (n : ℕ) : Prop := ∀ k, takes = some k → n ≤ k

/-- The first of the items that is allowed in `state` is `item`, and the rejections of those before
it can be sent. -/
structure GetsTo (state : LifecycleState) (takes : Option ℕ) (items early : List Item) (item : Item) :
    Prop where
  split : ∃ rest, items = early ++ item :: rest
  passed : ∀ e ∈ early, ¬ Allowed state e
  allowed : Allowed state item
  sendable : Sendable takes (rejections early).length

/-- `initialize_start` comes to a request that it takes. -/
def StartReached (takes : Option ℕ) (items : List Item) : Prop :=
  ∃ early r, GetsTo .uninitialized takes items early (.ok (.request r))

/-- `initialize_finish` comes to the notification that it waits for, before its timer goes off. -/
def FinishReached (takes timer : Option ℕ) (items : List Item) : Prop :=
  ∃ early n, GetsTo .initializing takes items early (.ok (.notification n)) ∧
    ∀ k, timer = some k → early.length < k

variable {state : LifecycleState} {takes : Option ℕ} {items early : List Item} {item x : Item}

theorem not_getsTo_nil : ¬ GetsTo state takes [] early item := by
  intro h
  obtain ⟨rest, he⟩ := h.split
  simp at he

theorem getsTo_of_allowed (hx : Allowed state x) :
    GetsTo state takes (x :: items) early item ↔ early = [] ∧ item = x := by
  constructor
  · intro h
    obtain ⟨rest, he⟩ := h.split
    cases early with
    | nil =>
      cases he
      exact ⟨rfl, rfl⟩
    | cons y early =>
      cases he
      exact absurd hx (h.passed x List.mem_cons_self)
  · rintro ⟨rfl, rfl⟩
    exact ⟨⟨items, rfl⟩, by simp, hx, fun _ _ ↦ Nat.zero_le _⟩

theorem getsTo_of_not_allowed (hx : ¬ Allowed state x) :
    GetsTo state takes (x :: items) early item ↔ ∃ early', early = x :: early' ∧
      GetsTo state (takes.map (· - (rejections [x]).length)) items early' item ∧
      Sendable takes (rejections [x]).length := by
  have hlen : ∀ early', (rejections (x :: early')).length =
      (rejections [x]).length + (rejections early').length := by
    intro early'
    rw [rejections_cons, List.length_append]
  constructor
  · intro h
    obtain ⟨rest, he⟩ := h.split
    cases early with
    | nil =>
      cases he
      exact absurd h.allowed hx
    | cons y early =>
      cases he
      have hsend := h.sendable
      rw [Sendable, hlen] at hsend
      refine ⟨early, rfl, ⟨⟨rest, rfl⟩, fun e he ↦ h.passed e (List.mem_cons_of_mem _ he), h.allowed,
        fun k hk ↦ ?_⟩, fun k hk ↦ ?_⟩
      · obtain ⟨n, rfl, rfl⟩ := Option.map_eq_some_iff.mp hk
        have := hsend n rfl
        omega
      · have := hsend k hk
        omega
  · intro hall
    obtain ⟨early', rfl, h, hx'⟩ := hall
    obtain ⟨rest, rfl⟩ := h.split
    refine ⟨⟨rest, rfl⟩, List.forall_mem_cons.mpr ⟨hx, h.passed⟩, h.allowed, fun k hk ↦ ?_⟩
    have hle := hx' k hk
    have hrest := h.sendable (k - (rejections [x]).length) (by rw [hk, Option.map_some])
    rw [hlen]
    omega

theorem not_startReached_nil : ¬ StartReached takes [] := by
  intro h
  obtain ⟨early, r, h⟩ := h
  exact not_getsTo_nil h

theorem startReached_of_allowed (hx : Allowed .uninitialized x) :
    StartReached takes (x :: items) ↔ ∃ r, x = .ok (.request r) := by
  simp only [StartReached, getsTo_of_allowed hx, exists_and_left, exists_eq_left, eq_comm (b := x)]

theorem startReached_of_not_allowed (hx : ¬ Allowed .uninitialized x) :
    StartReached takes (x :: items) ↔ Sendable takes (rejections [x]).length ∧
      StartReached (takes.map (· - (rejections [x]).length)) items := by
  simp only [StartReached, getsTo_of_not_allowed hx]
  constructor
  · intro h
    obtain ⟨-, r, early, -, h, hsend⟩ := h
    exact ⟨hsend, early, r, h⟩
  · intro h
    obtain ⟨hsend, early, r, h⟩ := h
    exact ⟨_, r, early, rfl, h, hsend⟩

theorem startReached_of_silent (hx : ¬ Allowed .uninitialized x) (hr : rejections [x] = []) :
    StartReached takes (x :: items) ↔ StartReached takes items := by
  rw [startReached_of_not_allowed hx, hr]
  simp [Sendable]

variable {timer : Option ℕ}

theorem not_finishReached_nil : ¬ FinishReached takes timer [] := by
  intro h
  obtain ⟨early, n, h, -⟩ := h
  exact not_getsTo_nil h

theorem not_finishReached_zero : ¬ FinishReached takes (some 0) items := by
  intro h
  obtain ⟨early, n, -, h⟩ := h
  exact absurd (h 0 rfl) (Nat.not_lt_zero _)

theorem finishReached_of_allowed (hx : Allowed .initializing x) (ht : timer ≠ some 0) :
    FinishReached takes timer (x :: items) ↔ ∃ n, x = .ok (.notification n) := by
  simp only [FinishReached, getsTo_of_allowed hx]
  constructor
  · intro h
    obtain ⟨-, n, ⟨-, rfl⟩, -⟩ := h
    exact ⟨n, rfl⟩
  · intro h
    obtain ⟨n, rfl⟩ := h
    refine ⟨[], n, ⟨rfl, rfl⟩, fun k hk ↦ Nat.pos_of_ne_zero ?_⟩
    rintro rfl
    exact ht hk

theorem finishReached_of_not_allowed (hx : ¬ Allowed .initializing x) (ht : timer ≠ some 0) :
    FinishReached takes timer (x :: items) ↔ Sendable takes (rejections [x]).length ∧
      FinishReached (takes.map (· - (rejections [x]).length)) (timer.map (· - 1)) items := by
  have htimer : ∀ early : List Item, (∀ k, timer.map (· - 1) = some k → early.length < k) ↔
      ∀ k, timer = some k → (x :: early).length < k := by
    intro early
    cases timer with
    | none => simp
    | some k =>
      have hk : k ≠ 0 := fun h ↦ ht (congrArg some h)
      simp only [Option.map_some, Option.some.injEq, forall_eq', List.length_cons]
      omega
  simp only [FinishReached, getsTo_of_not_allowed hx, htimer]
  constructor
  · intro h
    obtain ⟨-, n, ⟨early, rfl, h, hsend⟩, hlt⟩ := h
    exact ⟨hsend, early, n, h, hlt⟩
  · intro h
    obtain ⟨hsend, early, n, h, hlt⟩ := h
    exact ⟨_, n, ⟨early, rfl, h, hsend⟩, hlt⟩

theorem finishReached_of_silent (hx : ¬ Allowed .initializing x) (hr : rejections [x] = [])
    (ht : timer ≠ some 0) :
    FinishReached takes timer (x :: items) ↔ FinishReached takes (timer.map (· - 1)) items := by
  rw [finishReached_of_not_allowed hx ht, hr]
  simp [Sendable]

end Reached

section Loops

/-- A call that changes the phase to `state` if it gets to, and nothing of the tokens. -/
structure Sets (reached : Prop) (state : LifecycleState) (c c' : Connection ω) : Prop where
  tokens : c'.tokens = c.tokens
  shutdownToken : c'.shutdownToken = c.shutdownToken
  of_reached : reached → c'.lifecycleState = state
  of_not_reached : ¬ reached → c'.lifecycleState = c.lifecycleState

variable {c d : Connection ω} {state : LifecycleState} {reached : Prop}

theorem Sets.of_sent {sent : Outbound} (h : Sets reached state { c with outbound := sent } d) :
    Sets reached state c d :=
  ⟨h.tokens, h.shutdownToken, h.of_reached, h.of_not_reached⟩

theorem sets_of_not (receiver : List Item) (h : ¬ reached) :
    Sets reached state c { c with receiver } :=
  ⟨rfl, rfl, fun hr ↦ absurd hr h, fun _ ↦ rfl⟩

theorem sets_of (receiver : List Item) (h : reached) :
    Sets reached state c { c with lifecycleState := state, receiver } :=
  ⟨rfl, rfl, fun _ ↦ rfl, fun hr ↦ absurd h hr⟩

theorem send_of_sendable (h : Sendable c.outbound.takes 1) (message : Message) :
    ∃ sent : Outbound, sent.takes = c.outbound.takes.map (· - 1) ∧
      c.send message = (.ok (), { c with outbound := sent }) := by
  have hopen : c.outbound.takes ≠ some 0 := fun ht ↦ absurd (h 0 ht) (Nat.not_succ_le_zero 0)
  exact ⟨⟨c.outbound.sent ++ [message], c.outbound.takes.map (· - 1)⟩, rfl, send_of_open hopen message⟩

theorem send_of_not_sendable (h : ¬ Sendable c.outbound.takes 1) (message : Message) :
    c.send message = (.error (.brokenPipe "connection closed"), c) := by
  refine send_of_closed ?_ message
  by_contra hopen
  refine h fun k hk ↦ Nat.one_le_iff_ne_zero.mpr ?_
  rintro rfl
  exact hopen hk

theorem initializeStartLoop_sets (c : Connection ω) (items : List Item) :
    Sets (StartReached c.outbound.takes items) .initializing c (c.initializeStartLoop items).2 := by
  induction items generalizing c with
  | nil => exact sets_of_not [] not_startReached_nil
  | cons x items ih =>
    rcases x with e | r | r | n
    · have hx : Allowed .uninitialized (.error e) := trivial
      exact sets_of_not items (by simp [startReached_of_allowed hx])
    · by_cases hm : r.method = initializeMethod
      · have hx : Allowed .uninitialized (.ok (.request r)) := decide_eq_true hm
        rw [initializeStartLoop, if_pos hm]
        exact sets_of items ((startReached_of_allowed hx).mpr ⟨r, rfl⟩)
      · have hx : ¬ Allowed .uninitialized (.ok (.request r)) := fun h ↦ hm (of_decide_eq_true h)
        have hreached : StartReached c.outbound.takes (.ok (.request r) :: items) ↔
            Sendable c.outbound.takes 1 ∧ StartReached (c.outbound.takes.map (· - 1)) items :=
          startReached_of_not_allowed hx
        rw [initializeStartLoop, if_neg hm]
        by_cases hsend : Sendable c.outbound.takes 1
        · obtain ⟨sent, htakes, hs⟩ := send_of_sendable hsend (notInitialized r.id)
          have hrest := ih { c with outbound := sent }
          rw [htakes] at hrest
          rw [hs, hreached.trans (and_iff_right hsend)]
          exact hrest.of_sent
        · rw [send_of_not_sendable hsend]
          exact sets_of_not items fun h ↦ hsend (hreached.mp h).1
    · rw [initializeStartLoop, startReached_of_silent id rfl]
      exact ih c
    · by_cases hm : n.method = exitMethod
      · have hx : Allowed .uninitialized (.ok (.notification n)) := decide_eq_true hm
        rw [initializeStartLoop, if_pos hm]
        exact sets_of_not items (by simp [startReached_of_allowed hx])
      · have hx : ¬ Allowed .uninitialized (.ok (.notification n)) := fun h ↦ hm (of_decide_eq_true h)
        rw [initializeStartLoop, if_neg hm, startReached_of_silent hx rfl]
        exact ih c

theorem initializeFinishLoop_sets (c : Connection ω) (timer : Option ℕ) (items : List Item) :
    Sets (FinishReached c.outbound.takes timer items) .running c
      (c.initializeFinishLoop timer items).2 := by
  induction items generalizing c timer with
  | nil =>
    have hnot : ¬ FinishReached c.outbound.takes timer [] := not_finishReached_nil
    rcases timer with _ | _ | k <;> exact sets_of_not [] hnot
  | cons x items ih =>
    by_cases ht : timer = some 0
    · subst ht
      rw [initializeFinishLoop]
      exact sets_of_not (x :: items) not_finishReached_zero
    rcases x with e | r | r | n
    · have hx : Allowed .initializing (.error e) := trivial
      rw [initializeFinishLoop]
      · exact sets_of_not items (by simp [finishReached_of_allowed hx ht])
      · exact ht
    · have hx : ¬ Allowed .initializing (.ok (.request r)) := Bool.false_ne_true
      have hreached : FinishReached c.outbound.takes timer (.ok (.request r) :: items) ↔
          Sendable c.outbound.takes 1 ∧
            FinishReached (c.outbound.takes.map (· - 1)) (timer.map (· - 1)) items :=
        finishReached_of_not_allowed hx ht
      rw [initializeFinishLoop]
      · by_cases hsend : Sendable c.outbound.takes 1
        · obtain ⟨sent, htakes, hs⟩ := send_of_sendable hsend (notInitialized r.id)
          have hrest := ih { c with outbound := sent } (timer.map (· - 1))
          rw [htakes] at hrest
          rw [hs, hreached.trans (and_iff_right hsend)]
          exact hrest.of_sent
        · rw [send_of_not_sendable hsend]
          exact sets_of_not items fun h ↦ hsend (hreached.mp h).1
      · exact ht
    · rw [initializeFinishLoop, finishReached_of_silent id rfl ht]
      · exact ih c _
      · exact ht
    · by_cases hm : n.method = initializedMethod
      · have hx : Allowed .initializing (.ok (.notification n)) := decide_eq_true hm
        rw [initializeFinishLoop, if_pos hm]
        · exact sets_of items ((finishReached_of_allowed hx ht).mpr ⟨n, rfl⟩)
        · exact ht
      · have hx : ¬ Allowed .initializing (.ok (.notification n)) := fun h ↦ hm (of_decide_eq_true h)
        rw [initializeFinishLoop, if_neg hm, finishReached_of_silent hx rfl ht]
        · exact ih c _
        · exact ht

end Loops

section Calls

/-- A call comes to the place where it changes the phase. -/
def Reaches (c : Connection ω) : Call → Prop
  | .initializeStart => StartReached c.outbound.takes c.receiver
  | .initializeFinish _ _ timer => Sendable c.outbound.takes 1 ∧
      FinishReached (c.outbound.takes.map (· - 1)) timer c.receiver
  | .handleShutdown _ | .handleExit => True

/-- A call does not change the phase to one that is over. -/
def InOrder (c : Connection ω) (call : Call) : Prop :=
  Reaches c call → rank c.lifecycleState ≤ rank call.phase

def ShutDown (calls : List Call) : Prop := ∃ id, Call.handleShutdown id ∈ calls

theorem shutDown_concat {calls : List Call} {call : Call} :
    ShutDown (calls ++ [call]) ↔ ShutDown calls ∨ ∃ id, call = .handleShutdown id := by
  simp only [ShutDown, List.mem_append, List.mem_singleton, exists_or, eq_comm]

theorem Call.eq_handleShutdown {call : Call} (h : rank .shuttingDown ≤ rank call.phase)
    (hexit : call ≠ .handleExit) : ∃ id, call = .handleShutdown id := by
  cases call with
  | handleShutdown id => exact ⟨id, rfl⟩
  | handleExit => exact absurd rfl hexit
  | initializeStart | initializeFinish => exact absurd h (by simp [rank, phase])

variable (c : Connection ω)

theorem initializeFinish_sets (id : RequestId) (result : Value) (timer : Option ℕ) :
    Sets (Reaches c (.initializeFinish id result timer)) .running c
      (c.initializeFinish id result timer).2 := by
  unfold Connection.initializeFinish
  by_cases hsend : Sendable c.outbound.takes 1
  · obtain ⟨sent, htakes, hs⟩ := send_of_sendable hsend (.response (.ok id result))
    have hrest := initializeFinishLoop_sets { c with outbound := sent } timer c.receiver
    rw [htakes] at hrest
    rw [hs, Reaches, and_iff_right hsend]
    exact hrest.of_sent
  · rw [send_of_not_sendable hsend]
    exact sets_of_not c.receiver fun h ↦ hsend h.1

theorem called_state (call : Call) :
    (Reaches c call → (called c call).lifecycleState = call.phase) ∧
      (¬ Reaches c call → (called c call).lifecycleState = c.lifecycleState) := by
  cases call with
  | initializeStart =>
    have h := initializeStartLoop_sets c c.receiver
    exact ⟨h.of_reached, h.of_not_reached⟩
  | initializeFinish id result timer =>
    have h := initializeFinish_sets c id result timer
    exact ⟨h.of_reached, h.of_not_reached⟩
  | handleShutdown id =>
    exact ⟨fun _ ↦ (Cancellation.handleShutdown_keeps c id).2.2.2, fun h ↦ absurd trivial h⟩
  | handleExit => exact ⟨fun _ ↦ rfl, fun h ↦ absurd trivial h⟩

theorem called_token (call : Call) :
    (called c call).shutdownToken = c.shutdownToken ∧
      ((called c call).tokens.IsCancelled c.shutdownToken ↔
        c.tokens.IsCancelled c.shutdownToken ∨ ∃ id, call = .handleShutdown id) := by
  cases call with
  | initializeStart =>
    have h := initializeStartLoop_sets c c.receiver
    refine ⟨h.shutdownToken, ?_⟩
    rw [called, Connection.initializeStart, h.tokens]
    simp
  | initializeFinish id result timer =>
    have h := initializeFinish_sets c id result timer
    refine ⟨h.shutdownToken, ?_⟩
    rw [called, h.tokens]
    simp
  | handleShutdown id =>
    obtain ⟨htokens, -, htoken, -⟩ := Cancellation.handleShutdown_keeps c id
    refine ⟨htoken, ?_⟩
    rw [called, htokens, Tokens.isCancelled_cancel]
    simp
  | handleExit =>
    refine ⟨rfl, ?_⟩
    simp [called, Connection.handleExit]

theorem forward_iff (call : Call) :
    rank c.lifecycleState ≤ rank (called c call).lifecycleState ↔ InOrder c call := by
  obtain ⟨hreached, hnot⟩ := called_state c call
  by_cases h : Reaches c call
  · rw [hreached h, InOrder, forall_prop_of_true h]
  · rw [hnot h, InOrder, forall_prop_of_false h]
    exact iff_of_true le_rfl trivial

variable {c}

/-- What the calls that were made tell about the connection. -/
structure Tells (calls : List Call) (c : Connection ω) : Prop where
  token : c.tokens.IsCancelled c.shutdownToken ↔ ShutDown calls
  late : ShutDown calls → rank .shuttingDown ≤ rank c.lifecycleState
  shuttingDown : .handleExit ∉ calls → (c.lifecycleState = .shuttingDown ↔ ShutDown calls)

theorem tells_start (receiver : List Item) (takes : Option ℕ) :
    Tells [] (start receiver takes : Connection ω) := by
  have hnot : ¬ ShutDown [] := fun ⟨_, h⟩ ↦ List.not_mem_nil h
  refine ⟨iff_of_false ?_ hnot, fun h ↦ absurd h hnot, fun _ ↦ iff_of_false ?_ hnot⟩
  · exact fun ⟨_, _, h⟩ ↦ List.not_mem_nil h
  · exact LifecycleState.noConfusion

theorem tells_called {calls : List Call} {call : Call} (h : Tells calls c) (ho : InOrder c call) :
    Tells (calls ++ [call]) (called c call) := by
  obtain ⟨htoken, hcancelled⟩ := called_token c call
  obtain ⟨hreached, hnot⟩ := called_state c call
  refine ⟨?_, ?_, ?_⟩
  · rw [htoken, hcancelled, h.token, shutDown_concat]
  · intro hshut
    rcases shutDown_concat.mp hshut with hshut | ⟨id, rfl⟩
    · exact (h.late hshut).trans ((forward_iff c call).mpr ho)
    · rw [hreached trivial]
      exact le_rfl
  · intro hexit
    rw [List.mem_append, List.mem_singleton, not_or] at hexit
    rw [shutDown_concat]
    by_cases hr : Reaches c call
    · rw [hreached hr]
      constructor
      · exact fun hp ↦ .inr (Call.eq_handleShutdown (hp ▸ le_rfl) (Ne.symm hexit.2))
      · intro hshut
        obtain ⟨id, rfl⟩ : ∃ id, call = .handleShutdown id := by
          rcases hshut with hshut | hcall
          · exact Call.eq_handleShutdown ((h.late hshut).trans (ho hr)) (Ne.symm hexit.2)
          · exact hcall
        rfl
    · have hcall : ¬ ∃ id, call = .handleShutdown id := by
        rintro ⟨id, rfl⟩
        exact hr trivial
      rw [hnot hr, or_iff_left hcall]
      exact h.shuttingDown hexit.1

end Calls

/-- The calls follow the order of the phases. -/
structure Orderly (c : Connection ω) (calls : List Call) : Prop where
  forward : Each step
    (fun t call ↦ rank t.lifecycleState ≤ rank (called t call).lifecycleState) c calls
  exited : Each step
    (fun t call ↦ t.lifecycleState = .exited → (called t call).lifecycleState = .exited) c calls
  notRunning : Always step
    (fun t ↦ ¬ (t.lifecycleState = .running ∧ t.tokens.IsCancelled t.shutdownToken)) c calls
  exitCode : ∀ before after t, calls = before ++ .handleExit :: after → .handleExit ∉ before →
    run step c before = some t → (t.handleExit.1 = .success ↔ ShutDown before)

theorem handleExit_success {c : Connection ω} :
    c.handleExit.1 = .success ↔ c.lifecycleState = .shuttingDown := by
  simp [Connection.handleExit]

theorem orderly_iff (receiver : List Item) (takes : Option ℕ) (calls : List Call) :
    Orderly (start receiver takes : Connection ω) calls ↔
      Each step InOrder (start receiver takes : Connection ω) calls := by
  constructor
  · intro h before call after t t' he hr ht
    exact (forward_iff t call).mp (h.forward before call after t t' he hr ht)
  intro h
  have htells : ∀ before after (t : Connection ω), calls = before ++ after →
      run step (start receiver takes) before = some t → Tells before t := by
    intro before after t he hr
    subst he
    refine history_of_each (tells_start receiver takes) (fun hb ht ho ↦ ?_) h.left hr
    cases ht
    exact tells_called hb ho
  refine ⟨fun before call after t t' he hr ht ↦ ?_, fun before call after t t' he hr ht hexited ↦ ?_,
    fun before after t he hr hrun ↦ ?_, fun before after t he hfirst hr ↦ ?_⟩
  · exact (forward_iff t call).mpr (h before call after t t' he hr ht)
  · have hforward := (forward_iff t call).mpr (h before call after t t' he hr ht)
    rw [hexited] at hforward
    exact eq_exited hforward
  · have ht := htells before after t he hr
    have hlate := ht.late (ht.token.mp hrun.2)
    rw [hrun.1] at hlate
    exact absurd hlate (by decide)
  · rw [handleExit_success]
    exact (htells before _ t he hr).shuttingDown hfirst

/-- A shutdown during the handshake, which then runs on. -/
theorem not_orderly :
    ¬ Orderly (start [.ok (.request ⟨.string "a", "initialize", none⟩),
        .ok (.notification ⟨"initialized", none⟩)] none : Connection ℕ)
      [.initializeStart, .handleShutdown (.string "b"), .initializeFinish (.string "a") .null none,
        .handleExit] := by
  intro h
  have hcode := h.exitCode [.initializeStart, .handleShutdown (.string "b"),
    .initializeFinish (.string "a") .null none] [] _ rfl (by simp) rfl
  exact absurd (hcode.mpr ⟨.string "b", by simp⟩) (by decide)

end LspServerTokio.LifecycleOrder
