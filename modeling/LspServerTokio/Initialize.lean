import LspServerTokio.LifecycleOrder
import LspServerTokio.Sending

namespace LspServerTokio

open Foundation Handshake LifecycleOrder

variable {ω : Type}

/-- `json!({"capabilities": server_capabilities})` -/
def initializeResult (serverCapabilities : Value) : Value where
  json := .object [("capabilities", serverCapabilities.json)]
  isValue := .object (List.pairwise_singleton _ _) (by simpa using serverCapabilities.isValue)

/-- `Connection::initialize` -/
def Connection.initializeHandshake (c : Connection ω) (serverCapabilities : Value) (timer : Option ℕ) :
    Except ProtocolError Value × Connection ω :=
  match c.initializeStart with
  | (.error e, c) => (.error e, c)
  | (.ok (id, params), c) =>
    match c.initializeFinish id (initializeResult serverCapabilities) timer with
    | (.error e, c) => (.error e, c)
    | (.ok (), c) => (.ok params, c)

namespace Initialize

open Connection

variable {c c' : Connection ω} {item : Item} {items : List Item}

theorem send_eq (message : Message) :
    Sendable c.outbound.takes 1 ∧ c.send message = (.ok (), c.pushing [message]) ∨
      ¬ Sendable c.outbound.takes 1 ∧
        c.send message = (.error (.brokenPipe "connection closed"), c) := by
  by_cases h : Sendable c.outbound.takes 1
  · obtain ⟨sent, -, hs⟩ := send_of_sendable h message
    exact .inl ⟨h, by rw [← (c.send_eq_pushing message).1, hs]⟩
  · exact .inr ⟨h, send_of_not_sendable h message⟩

theorem sendable_zero (takes : Option ℕ) : Sendable takes 0 := fun _ _ ↦ Nat.zero_le _

/-- What is not allowed is passed over, if its rejection can be sent. -/
theorem start_pass (h : ¬ Allowed .uninitialized item) (items : List Item) :
    Sendable c.outbound.takes (rejections [item]).length ∧ c.initializeStartLoop (item :: items) =
        (c.pushing (rejections [item])).initializeStartLoop items ∨
      ¬ Sendable c.outbound.takes (rejections [item]).length ∧
        ∃ e, c.initializeStartLoop (item :: items) = (.error e, { c with receiver := items }) := by
  rcases item with e | r | r | n
  · exact absurd trivial h
  · have hm : r.method ≠ initializeMethod := fun he ↦ h (decide_eq_true he)
    rw [initializeStartLoop, if_neg hm]
    refine (send_eq (c := c) (notInitialized r.id)).imp ?_ ?_ <;> rintro ⟨hsend, hs⟩ <;> rw [hs]
    · exact ⟨hsend, rfl⟩
    · exact ⟨hsend, _, rfl⟩
  · exact .inl ⟨sendable_zero _, by rw [initializeStartLoop]; rfl⟩
  · have hm : n.method ≠ exitMethod := fun he ↦ h (decide_eq_true he)
    exact .inl ⟨sendable_zero _, by rw [initializeStartLoop, if_neg hm]; rfl⟩

theorem finish_pass (h : ¬ Allowed .initializing item) {timer : Option ℕ} (ht : timer ≠ some 0)
    (items : List Item) :
    Sendable c.outbound.takes (rejections [item]).length ∧
        c.initializeFinishLoop timer (item :: items) =
          (c.pushing (rejections [item])).initializeFinishLoop (timer.map (· - 1)) items ∨
      ¬ Sendable c.outbound.takes (rejections [item]).length ∧
        ∃ e, c.initializeFinishLoop timer (item :: items) = (.error e, { c with receiver := items }) := by
  rcases item with e | r | r | n
  · exact absurd trivial h
  · rw [initializeFinishLoop]
    · refine (send_eq (c := c) (notInitialized r.id)).imp ?_ ?_ <;> rintro ⟨hsend, hs⟩ <;> rw [hs]
      · exact ⟨hsend, rfl⟩
      · exact ⟨hsend, _, rfl⟩
    · exact ht
  · refine .inl ⟨sendable_zero _, ?_⟩
    rw [initializeFinishLoop]
    · rfl
    · exact ht
  · have hm : n.method ≠ initializedMethod := fun he ↦ h (decide_eq_true he)
    refine .inl ⟨sendable_zero _, ?_⟩
    rw [initializeFinishLoop, if_neg hm]
    · rfl
    · exact ht

theorem takes_rejection : (c.pushing (rejections [item])).outbound.takes =
    c.outbound.takes.map (· - (rejections [item]).length) := Outbound.takes_pushAll _ _

/-- `initialize_start` succeeds exactly if it gets to a request that it takes. -/
theorem start_eq_ok {started : RequestId × Value} :
    c.initializeStartLoop items = (.ok started, c') ↔ ∃ early r,
      GetsTo .uninitialized c.outbound.takes items early (.ok (.request r)) ∧
        started = (r.id, r.params.getD .null) ∧
        c' = { c.pushing (rejections early) with
          lifecycleState := .initializing, receiver := items.drop (early.length + 1) } := by
  induction items generalizing c with
  | nil => simp [initializeStartLoop, not_getsTo_nil]
  | cons item items ih =>
    by_cases h : Allowed .uninitialized item
    · simp only [getsTo_of_allowed h]
      rcases item with e | r | r | n
      · simp [initializeStartLoop]
      · have hm : r.method = initializeMethod := of_decide_eq_true h
        rw [initializeStartLoop, if_pos hm]
        constructor
        · intro hs
          cases hs
          exact ⟨[], r, ⟨rfl, rfl⟩, rfl, rfl⟩
        · rintro ⟨-, r', ⟨rfl, he⟩, rfl, rfl⟩
          cases he
          rfl
      · exact h.elim
      · have hm : n.method = exitMethod := of_decide_eq_true h
        simp [initializeStartLoop, hm]
    · simp only [getsTo_of_not_allowed h]
      rcases start_pass h items with ⟨hsend, hpass⟩ | ⟨hsend, e, hfail⟩
      · rw [hpass, ih, takes_rejection]
        constructor
        · rintro ⟨early, r, hgets, rfl, rfl⟩
          refine ⟨item :: early, r, ⟨early, rfl, hgets, hsend⟩, rfl, ?_⟩
          rw [pushing_pushing, ← rejections_cons]
          rfl
        · rintro ⟨-, r, ⟨early, rfl, hgets, -⟩, rfl, rfl⟩
          refine ⟨early, r, hgets, rfl, ?_⟩
          rw [pushing_pushing, ← rejections_cons]
          rfl
      · constructor
        · intro hs
          rw [hfail] at hs
          cases hs
        · rintro ⟨-, r, ⟨early, rfl, -, hsend'⟩, -⟩
          exact absurd hsend' hsend

theorem timer_cons {timer : Option ℕ} (ht : timer ≠ some 0) {early : List Item} :
    (∀ k, timer.map (· - 1) = some k → early.length < k) ↔
      ∀ k, timer = some k → (item :: early).length < k := by
  rcases timer with _ | _ | k
  · simp
  · exact absurd rfl ht
  · simp only [Option.map_some, Option.some.injEq, forall_eq', List.length_cons]
    omega

/-- `initialize_finish` succeeds exactly if it gets to the notification before its timer goes off. -/
theorem finish_eq_ok {timer : Option ℕ} :
    c.initializeFinishLoop timer items = (.ok (), c') ↔ ∃ early n,
      GetsTo .initializing c.outbound.takes items early (.ok (.notification n)) ∧
        (∀ k, timer = some k → early.length < k) ∧
        c' = { c.pushing (rejections early) with
          lifecycleState := .running, receiver := items.drop (early.length + 1) } := by
  induction items generalizing c timer with
  | nil =>
    simp only [not_getsTo_nil, false_and, exists_const]
    rcases timer with _ | _ | k <;> simp [initializeFinishLoop]
  | cons item items ih =>
    by_cases ht : timer = some 0
    · subst ht
      simp [initializeFinishLoop]
    by_cases h : Allowed .initializing item
    · simp only [getsTo_of_allowed h]
      rcases item with e | r | r | n
      · rw [initializeFinishLoop]
        · simp
        · exact ht
      · exact absurd h Bool.false_ne_true
      · exact h.elim
      · have hm : n.method = initializedMethod := of_decide_eq_true h
        rw [initializeFinishLoop, if_pos hm]
        · constructor
          · intro hs
            cases hs
            refine ⟨[], n, ⟨rfl, rfl⟩, fun k hk ↦ Nat.pos_of_ne_zero ?_, rfl⟩
            rintro rfl
            exact ht hk
          · rintro ⟨-, n', ⟨rfl, he⟩, -, rfl⟩
            cases he
            rfl
        · exact ht
    · simp only [getsTo_of_not_allowed h]
      rcases finish_pass h ht items with ⟨hsend, hpass⟩ | ⟨hsend, e, hfail⟩
      · rw [hpass, ih, takes_rejection]
        constructor
        · rintro ⟨early, n, hgets, htimer, rfl⟩
          refine ⟨item :: early, n, ⟨early, rfl, hgets, hsend⟩, (timer_cons ht).mp htimer, ?_⟩
          rw [pushing_pushing, ← rejections_cons]
          rfl
        · rintro ⟨-, n, ⟨early, rfl, hgets, -⟩, htimer, rfl⟩
          refine ⟨early, n, hgets, (timer_cons ht).mpr htimer, ?_⟩
          rw [pushing_pushing, ← rejections_cons]
          rfl
      · constructor
        · intro hs
          rw [hfail] at hs
          cases hs
        · rintro ⟨-, r, ⟨early, rfl, -, hsend'⟩, -⟩
          exact absurd hsend' hsend

theorem sendable_add {takes : Option ℕ} {m n : ℕ} :
    Sendable takes (m + n) ↔ Sendable takes m ∧ Sendable (takes.map (· - m)) n := by
  rcases takes with _ | k
  · simp [Sendable]
  · simp only [Sendable, Option.map_some, Option.some.injEq, forall_eq']
    omega

theorem drop_behind {early rest : List Item} (h : items = early ++ item :: rest) :
    items.drop (early.length + 1) = rest := by
  rw [h, List.drop_length_add_append]
  rfl

theorem initializeStart_eq_ok {started : RequestId × Value} :
    c.initializeStart = (.ok started, c') ↔ ∃ early r rest,
      c.receiver = early ++ .ok (.request r) :: rest ∧ (∀ x ∈ early, ¬ Allowed .uninitialized x) ∧
      r.method = initializeMethod ∧ Sendable c.outbound.takes (rejections early).length ∧
      started = (r.id, r.params.getD .null) ∧
      c' = { c.pushing (rejections early) with lifecycleState := .initializing, receiver := rest } := by
  rw [initializeStart, start_eq_ok]
  constructor
  · rintro ⟨early, r, hgets, rfl, rfl⟩
    obtain ⟨rest, hrest⟩ := hgets.split
    exact ⟨early, r, rest, hrest, hgets.passed, of_decide_eq_true hgets.allowed, hgets.sendable, rfl,
      by rw [drop_behind hrest]⟩
  · rintro ⟨early, r, rest, hrest, hpassed, hmethod, hsend, rfl, rfl⟩
    exact ⟨early, r, ⟨⟨rest, hrest⟩, hpassed, decide_eq_true hmethod, hsend⟩, rfl,
      by rw [drop_behind hrest]⟩

theorem initializeFinish_eq_ok {id : RequestId} {result : Value} {timer : Option ℕ} :
    c.initializeFinish id result timer = (.ok (), c') ↔ ∃ late n rest,
      c.receiver = late ++ .ok (.notification n) :: rest ∧ (∀ x ∈ late, ¬ Allowed .initializing x) ∧
      n.method = initializedMethod ∧ (∀ k, timer = some k → late.length < k) ∧
      Sendable c.outbound.takes (1 + (rejections late).length) ∧
      c' = { c.pushing (.response (.ok id result) :: rejections late) with
        lifecycleState := .running, receiver := rest } := by
  have hpush : ∀ late, (c.pushing [.response (.ok id result)]).pushing (rejections late) =
      c.pushing (.response (.ok id result) :: rejections late) := fun late ↦ pushing_pushing _ _ _
  have htakes : (c.pushing [.response (.ok id result)]).outbound.takes = c.outbound.takes.map (· - 1) :=
    Outbound.takes_pushAll _ _
  rw [initializeFinish]
  rcases send_eq (c := c) (.response (.ok id result)) with ⟨hsend, hs⟩ | ⟨hsend, hs⟩ <;> rw [hs]
  · refine finish_eq_ok.trans ?_
    rw [htakes]
    constructor
    · rintro ⟨late, n, hgets, htimer, rfl⟩
      obtain ⟨rest, hrest⟩ := hgets.split
      exact ⟨late, n, rest, hrest, hgets.passed, of_decide_eq_true hgets.allowed, htimer,
        sendable_add.mpr ⟨hsend, hgets.sendable⟩, by rw [hpush, drop_behind hrest]⟩
    · rintro ⟨late, n, rest, hrest, hpassed, hmethod, htimer, hboth, rfl⟩
      exact ⟨late, n, ⟨⟨rest, hrest⟩, hpassed, decide_eq_true hmethod, (sendable_add.mp hboth).2⟩,
        htimer, by rw [hpush, ← drop_behind hrest]; rfl⟩
  · constructor
    · intro h
      cases h
    · rintro ⟨late, n, rest, -, -, -, -, hboth, -⟩
      exact absurd (sendable_add.mp hboth).1 hsend

/-- What is sent in the handshake. -/
def handshakeMessages (early : List Item) (r : Request) (serverCapabilities : Value) (late : List Item) :
    List Message :=
  rejections early ++ .response (.ok r.id (initializeResult serverCapabilities)) :: rejections late

/-- An initialize request comes and then, before the timer goes off, the initialized notification, and
the channel takes all that is sent in the meantime. -/
structure Opening (receiver : List Item) (takes timer : Option ℕ) (serverCapabilities : Value)
    (early : List Item) (r : Request) (late : List Item) (n : Notification) (rest : List Item) :
    Prop where
  received : receiver = early ++ .ok (.request r) :: (late ++ .ok (.notification n) :: rest)
  early_passed : ∀ x ∈ early, ¬ Allowed .uninitialized x
  initializes : r.method = initializeMethod
  late_passed : ∀ x ∈ late, ¬ Allowed .initializing x
  initialized : n.method = initializedMethod
  timer : ∀ k, timer = some k → late.length < k
  sendable : Sendable takes (handshakeMessages early r serverCapabilities late).length

/-- The handshake in one call succeeds exactly if the stream begins with an opening. It leaves the rest
of the stream, and has sent the rejections before the request, its response, and the rejections before
the notification. -/
theorem initializeHandshake_eq_ok {serverCapabilities params : Value} {timer : Option ℕ} :
    c.initializeHandshake serverCapabilities timer = (.ok params, c') ↔ ∃ early r late n rest,
      Opening c.receiver c.outbound.takes timer serverCapabilities early r late n rest ∧
      params = r.params.getD .null ∧
      c' = { c.pushing (handshakeMessages early r serverCapabilities late) with
        lifecycleState := .running, receiver := rest } := by
  have htakes : ∀ messages, (c.pushing messages).outbound.takes =
      c.outbound.takes.map (· - messages.length) := fun _ ↦ Outbound.takes_pushAll _ _
  have hlen : ∀ early r late, (handshakeMessages early r serverCapabilities late).length =
      (rejections early).length + (1 + (rejections late).length) := by
    intro early r late
    rw [handshakeMessages, List.length_append, List.length_cons, Nat.add_comm 1]
  constructor
  · intro h
    unfold initializeHandshake at h
    rcases hs : c.initializeStart with ⟨e | ⟨id, started⟩, c₁⟩
    · simp [hs] at h
    · rw [hs] at h
      dsimp only at h
      rcases hf : c₁.initializeFinish id (initializeResult serverCapabilities) timer with ⟨e | ⟨⟩, c₂⟩
      · simp [hf] at h
      · rw [hf] at h
        cases h
        obtain ⟨early, r, rest, hrest, hearly, hr, hsend, hstarted, rfl⟩ := initializeStart_eq_ok.mp hs
        cases hstarted
        obtain ⟨late, n, rest', hrest', hlate, hn, htimer, hsend', rfl⟩ := initializeFinish_eq_ok.mp hf
        subst hrest'
        refine ⟨early, r, late, n, rest', ⟨hrest, hearly, hr, hlate, hn, htimer, ?_⟩, rfl, ?_⟩
        · rw [hlen, sendable_add]
          exact ⟨hsend, htakes _ ▸ hsend'⟩
        · rw [handshakeMessages, ← pushing_pushing]
          rfl
  · rintro ⟨early, r, late, n, rest, h, rfl, rfl⟩
    have hsend := h.sendable
    rw [hlen, sendable_add] at hsend
    have hs := initializeStart_eq_ok.mpr
      ⟨early, r, _, h.received, h.early_passed, h.initializes, hsend.1, rfl, rfl⟩
    have hf : ({ c.pushing (rejections early) with
        lifecycleState := .initializing, receiver := late ++ .ok (.notification n) :: rest } :
          Connection ω).initializeFinish r.id (initializeResult serverCapabilities) timer = (.ok (), _) :=
      initializeFinish_eq_ok.mpr
      ⟨late, n, rest, rfl, h.late_passed, h.initialized, h.timer, htakes (rejections early) ▸ hsend.2, rfl⟩
    simp only [initializeHandshake, hs, hf]
    rw [handshakeMessages, ← pushing_pushing]
    rfl

/-- A call has taken some of the items and sent nothing but responses: to the requests that it owed one
before, and to those that it has taken. The last it may still owe. -/
def Answers (c : Connection ω) (items : List Item) (before : List (Option RequestId))
    (c' : Connection ω) (after : List (Option RequestId)) : Prop :=
  ∃ (consumed : List Item) (sent : List Response), items = consumed ++ c'.receiver ∧
    c'.outbound = c.outbound.pushAll (sent.map .response) ∧
    before ++ requestedIds consumed = sent.map (·.id) ++ after

section Answers

variable {c₁ c₂ c₃ : Connection ω} {first second third : List (Option RequestId)}

theorem Answers.trans (h : Answers c₁ items first c₂ second)
    (h' : Answers c₂ c₂.receiver second c₃ third) :
    Answers c₁ items first c₃ third := by
  obtain ⟨consumed, sent, hsplit, houtbound, hids⟩ := h
  obtain ⟨consumed', sent', hsplit', houtbound', hids'⟩ := h'
  refine ⟨consumed ++ consumed', sent ++ sent', ?_, ?_, ?_⟩
  · rw [List.append_assoc, ← hsplit', hsplit]
  · rw [houtbound', houtbound, List.map_append, Outbound.pushAll_append]
  · rw [requestedIds_append, ← List.append_assoc, hids, List.append_assoc, hids', List.map_append,
      List.append_assoc]

theorem Answers.pass (h : Answers (c₁.pushing (rejections [item])) items [] c₂ second) :
    Answers c₁ (item :: items) [] c₂ second := by
  obtain ⟨consumed, sent, rfl, houtbound, hids⟩ := h
  rcases item with e | r | r | n
  · exact ⟨.error e :: consumed, sent, rfl, houtbound, hids⟩
  · refine ⟨.ok (.request r) :: consumed,
      .err r.id (.new .serverNotInitialized "Server not yet initialized") :: sent, rfl, houtbound, ?_⟩
    exact congrArg (some r.id :: ·) hids
  · exact ⟨.ok (.response r) :: consumed, sent, rfl, houtbound, hids⟩
  · exact ⟨.ok (.notification n) :: consumed, sent, rfl, houtbound, hids⟩

/-- An item that ends a call. If it is a request, then the call owes its response. -/
theorem answers_end (h : c'.outbound = c.outbound) (hreceiver : c'.receiver = items) :
    Answers c (item :: items) [] c' (requestedIds [item]) :=
  ⟨[item], [], by rw [hreceiver, List.singleton_append], h, rfl⟩

theorem answers_failed (hsend : ¬ Sendable c.outbound.takes (rejections [item]).length) :
    Answers c (item :: items) [] { c with receiver := items } [] := by
  refine Answers.pass ⟨[], [], rfl, ?_, rfl⟩
  rcases item with e | r | r | n
  · rfl
  · have hstays : c.pushing [notInitialized r.id] = c := by
      rw [← (c.send_eq_pushing _).1, send_of_not_sendable hsend]
    exact (congrArg outbound hstays).symm
  · rfl
  · rfl

/-- The response that `initialize_start` leaves to `initialize_finish`. -/
def owed : Except ProtocolError (RequestId × Value) → List (Option RequestId)
  | .ok (id, _) => [some id]
  | .error _ => []

theorem start_answers (c : Connection ω) (items : List Item) : Answers c items []
    (c.initializeStartLoop items).2 (owed (c.initializeStartLoop items).1) := by
  induction items generalizing c with
  | nil => exact ⟨[], [], rfl, rfl, rfl⟩
  | cons item items ih =>
    by_cases h : Allowed .uninitialized item
    · rcases item with e | r | r | n
      · exact answers_end rfl rfl
      · have hm : r.method = initializeMethod := of_decide_eq_true h
        rw [initializeStartLoop, if_pos hm]
        exact answers_end rfl rfl
      · exact h.elim
      · have hm : n.method = exitMethod := of_decide_eq_true h
        rw [initializeStartLoop, if_pos hm]
        exact answers_end rfl rfl
    · rcases start_pass h items with ⟨-, hpass⟩ | ⟨hsend, e, hfail⟩
      · rw [hpass]
        exact (ih _).pass
      · rw [hfail]
        exact answers_failed hsend

theorem finish_answers (c : Connection ω) (timer : Option ℕ) (items : List Item) :
    Answers c items [] (c.initializeFinishLoop timer items).2 [] := by
  induction items generalizing c timer with
  | nil => rcases timer with _ | _ | k <;> exact ⟨[], [], rfl, rfl, rfl⟩
  | cons item items ih =>
    by_cases ht : timer = some 0
    · subst ht
      exact ⟨[], [], rfl, rfl, rfl⟩
    by_cases h : Allowed .initializing item
    · rcases item with e | r | r | n
      · rw [initializeFinishLoop]
        · exact answers_end rfl rfl
        · exact ht
      · exact absurd h Bool.false_ne_true
      · exact h.elim
      · have hm : n.method = initializedMethod := of_decide_eq_true h
        rw [initializeFinishLoop, if_pos hm]
        · exact answers_end rfl rfl
        · exact ht
    · rcases finish_pass h ht items with ⟨-, hpass⟩ | ⟨hsend, e, hfail⟩
      · rw [hpass]
        exact (ih _ _).pass
      · rw [hfail]
        exact answers_failed hsend

theorem initializeFinish_answers (c : Connection ω) (id : RequestId) (result : Value)
    (timer : Option ℕ) :
    Answers c c.receiver [some id] (c.initializeFinish id result timer).2 [] := by
  have hsent : Answers c c.receiver [some id] (c.pushing [.response (.ok id result)]) [] :=
    ⟨[], [.ok id result], rfl, rfl, rfl⟩
  rw [initializeFinish]
  obtain ⟨hpush, ⟨hclosed, hstays⟩ | hok⟩ := c.send_eq_pushing (.response (.ok id result))
  · rw [hstays] at hsent
    rw [send_of_closed hclosed]
    exact hsent
  · have hs : c.send (.response (.ok id result)) = (.ok (), c.pushing [.response (.ok id result)]) := by
      rw [← hpush, ← hok]
    rw [hs]
    exact hsent.trans (finish_answers _ _ _)

/-- Whether it succeeds or not, the handshake answers the requests that it takes from the stream, once
each and in their order, and sends nothing else. -/
theorem initializeHandshake_answers (c : Connection ω) (serverCapabilities : Value)
    (timer : Option ℕ) :
    Answers c c.receiver [] (c.initializeHandshake serverCapabilities timer).2 [] := by
  have hstart : Answers c c.receiver [] c.initializeStart.2 (owed c.initializeStart.1) :=
    start_answers c c.receiver
  unfold initializeHandshake
  rcases hs : c.initializeStart with ⟨e | ⟨id, params⟩, c₁⟩ <;> rw [hs] at hstart
  · exact hstart
  · have hfinish := initializeFinish_answers c₁ id (initializeResult serverCapabilities) timer
    dsimp only
    rcases hf : c₁.initializeFinish id (initializeResult serverCapabilities) timer with ⟨e | ⟨⟩, c₂⟩
    all_goals
      rw [hf] at hfinish
      exact hstart.trans hfinish

end Answers

end Initialize

end LspServerTokio
