import LspServerTokio.Slots

namespace LspServerTokio.System

open Foundation

variable {s s' : System} {actions : List Action} {a : Action}

/-- What an action puts into the channel. -/
def queued (s : System) : Action → List QueuedMessage
  | .enqueue k =>
    match s.phase k with
    | some (.registered id) => if s.drain = .exited then [] else [.request k id]
    | _ => []
  | .cancelOutgoing _ | .send => if s.drain = .exited then [] else [.other]
  | _ => []

/-- What the drain task has taken from the channel and not yet written. -/
def inHand (s : System) : List QueuedMessage :=
  match s.drain with
  | .writing message => [message]
  | _ => []

def written (s : System) : Action → List QueuedMessage
  | .drainWrite .ok => s.inHand
  | _ => []

def Failed (actions : List Action) : Prop := ∃ reached, Action.drainWrite (.error reached) ∈ actions

/-- No one is left who could send anything. -/
structure Abandoned (s : System) : Prop where
  dropped : s.connected = false
  handles : ∀ handle ∈ s.handles, handle.alive = false
  ended : ∀ k p, s.phase k = some p → p.isEnded = true

section Calls

/-- A call that has not ended holds its handle. -/
def CallsHeld (s : System) : Prop :=
  ∀ k p, s.phase k = some p → p.isEnded = false →
    ∃ counter, s.handles[s.sender k]? = some ⟨counter, true⟩

theorem callsHeld_insert {k : ℕ} {p q : Phase} (hs : s.CallsHeld) (hk : s.phase k = some p)
    (hp : p.isEnded = false) (hphase : s'.phase = s.phase.insert k q) (hsender : s'.sender = s.sender)
    (hhandles : s'.handles = s.handles) : s'.CallsHeld := by
  intro j r hj hr
  rw [hsender, hhandles]
  rw [hphase] at hj
  rcases Table.insert_eq_some.mp hj with ⟨rfl, -⟩ | ⟨-, hj⟩
  · exact hs _ p hk hp
  · exact hs j r hj hr

theorem callsHeld_append {handle : Handle} (hs : s.CallsHeld) (hphase : s'.phase = s.phase)
    (hsender : s'.sender = s.sender) (hhandles : s'.handles = s.handles ++ [handle]) :
    s'.CallsHeld := by
  intro k p hk hp
  rw [hphase] at hk
  obtain ⟨counter, hcounter⟩ := hs k p hk hp
  rw [hsender, hhandles, List.getElem?_append_left (List.getElem?_eq_some_iff.mp hcounter).1]
  exact ⟨counter, hcounter⟩

theorem callsHeld_step (hn : s.Numbered) (hs : s.CallsHeld) (h : Step s a s') : s'.CallsHeld := by
  cases h with
  | clientSender | cloneSender => exact callsHeld_append hs rfl rfl rfl
  | @dropSender h counter hh hended =>
    intro k p hk hp
    obtain ⟨counter', hcounter⟩ := hs k p hk hp
    have hlt : k < s.started := by
      by_contra hge
      rw [hn k (not_lt.mp hge)] at hk
      cases hk
    have hne : h ≠ s.sender k := by
      rintro rfl
      have hall := hended k hlt rfl
      rw [hk, Option.all_some, hp] at hall
      cases hall
    exact ⟨counter', (List.getElem?_set_ne hne).trans hcounter⟩
  | @request h counter hh =>
    intro k p hk hp
    rcases Table.insert_eq_some.mp hk with ⟨rfl, -⟩ | ⟨hne, hk⟩
    · exact ⟨counter, by simpa using hh⟩
    · obtain ⟨counter', hcounter⟩ := hs k p hk hp
      exact ⟨counter', by simpa [hne] using hcounter⟩
  | nextId hp | register hp | retry hp | enqueue hp | receive hp =>
    exact callsHeld_insert hs hp rfl rfl rfl rfl
  | drop _ hp => rcases hp with hp | hp <;> exact callsHeld_insert hs hp rfl rfl rfl rfl
  | _ => exact hs

theorem callsHeld_of_run (h : run step init actions = some s) : s.CallsHeld := by
  refine (invariant_of_run (P := fun s ↦ s.Numbered ∧ s.CallsHeld) ?_ ⟨fun _ _ ↦ rfl, ?_⟩ h).2
  · intro s a t hs ha
    exact ⟨numbered_step hs.1 (step_of_eq_some ha), callsHeld_step hs.1 hs.2 (step_of_eq_some ha)⟩
  · intro k p hk
    cases hk

end Calls

section Abandoned

/-- Once no one is left, no one comes back, and nothing is sent any more. -/
theorem Abandoned.step (hs : s.Abandoned) (h : step s a = some s') :
    s'.Abandoned ∧ s.queued a = [] := by
  have hfree : ¬ s.Free := by
    rintro ⟨hc, -⟩
    simp [hs.dropped] at hc
  have hhandle : ∀ {i counter : ℕ}, s.handles[i]? ≠ some ⟨counter, true⟩ := by
    intro i counter hi
    cases hs.handles _ (List.mem_of_getElem? hi)
  have hphase : ∀ {k : ℕ} {p : Phase}, s.phase k = some p → p.isEnded = false → False := by
    intro k p hk hp
    rw [hs.ended k p hk] at hp
    cases hp
  cases step_of_eq_some h with
  | clientSender hf | routeNull _ hf | routeBegin _ hf | registerOutgoing hf | cancelOutgoing hf
  | receiverEnd hf | dropConnection hf => exact absurd hf hfree
  | cloneSender hi | dropSender hi | request hi => exact absurd hi hhandle
  | nextId hp | register hp | retry hp | enqueue hp | receive hp => exact (hphase hp rfl).elim
  | drop _ hp => rcases hp with hp | hp <;> exact (hphase hp rfl).elim
  | sent hd =>
    have hguard : s.connected = true ∨ ∃ handle ∈ s.handles, handle.alive = true := by
      by_contra hn
      rw [System.step, send, if_neg hn] at h
      cases h
    rcases hguard with hc | ⟨handle, hmem, halive⟩
    · simp [hs.dropped] at hc
    · simp [hs.handles handle hmem] at halive
  | send ha hd =>
    refine ⟨hs, ?_⟩
    rcases ha with rfl | ⟨id, rfl⟩ <;> exact if_pos hd
  | _ => exact ⟨⟨hs.dropped, hs.handles, hs.ended⟩, rfl⟩

theorem abandoned_of_callsHeld (hs : s.CallsHeld) (hdropped : s.connected = false)
    (hhandles : ∀ handle ∈ s.handles, handle.alive = false) : s.Abandoned := by
  refine ⟨hdropped, hhandles, fun k p hk ↦ ?_⟩
  by_contra hp
  obtain ⟨counter, hcounter⟩ := hs k p hk (by simpa using hp)
  cases hhandles _ (List.mem_of_getElem? hcounter)

end Abandoned

section Channel

/-- What an action does to the channel and to the drain task. -/
inductive ChannelEffect (s : System) (a : Action) (s' : System) : Prop
  | keep : s.queued a = [] → s.written a = [] → s'.queue = s.queue → s'.drain = s.drain →
      ChannelEffect s a s'
  | queued {message : QueuedMessage} : s.queued a = [message] → s.written a = [] →
      s.drain ≠ .exited → s'.queue = s.queue ++ [message] → s'.drain = s.drain → ChannelEffect s a s'
  | taken {message : QueuedMessage} : a = .drainRecv → s.drain = .idle →
      s.queue = message :: s'.queue → s'.drain = .writing message → ChannelEffect s a s'
  | written {message : QueuedMessage} : a = .drainWrite .ok → s.drain = .writing message →
      s'.queue = s.queue → s'.drain = .idle → ChannelEffect s a s'
  | failed {message : QueuedMessage} {reached : Bool} : a = .drainWrite (.error reached) →
      s.drain = .writing message → s'.queue = s.queue → s'.drain = .returning → ChannelEffect s a s'
  | closed : a = .drainRecvNone → s.drain = .idle → s.queue = [] → s'.queue = [] →
      s.connected = false → (∀ handle ∈ s.handles, handle.alive = false) → s'.drain = .returning →
      ChannelEffect s a s'
  | returned : a = .drainReturn → s.drain = .returning → s'.queue = [] → s'.drain = .exited →
      ChannelEffect s a s'

theorem channelEffect (h : Step s a s') : ChannelEffect s a s' := by
  cases h with
  | @enqueue k id hp hd =>
    have hqueued : s.queued (.enqueue k) = [.request k id] := by
      simp only [System.queued, hp, if_neg hd]
    exact .queued hqueued rfl hd rfl rfl
  | cancelOutgoing _ hd | sent hd => exact .queued (if_neg hd) rfl hd rfl rfl
  | send ha hd => rcases ha with rfl | ⟨id, rfl⟩ <;> exact .keep (if_pos hd) rfl rfl rfl
  | @drop a k id result ha hp =>
    have hkeep : s.queued a = [] ∧ s.written a = [] := by
      cases a with
      | enqueue k =>
        simp only [dropped] at ha
        split at ha
        · next hp =>
          split_ifs at ha with hd
          exact ⟨by simp only [System.queued, hp, if_pos hd], rfl⟩
        · cases ha
      | _ => first | exact ⟨rfl, rfl⟩ | cases ha
    exact .keep hkeep.1 hkeep.2 rfl rfl
  | drainRecv hd hq => exact .taken rfl hd hq rfl
  | written hd => exact .written rfl hd rfl rfl
  | writeFailed hd => exact .failed rfl hd rfl rfl
  | drainRecvNone hd hq hc hh => exact .closed rfl hd hq hq hc hh rfl
  | drainReturn hd => exact .returned rfl hd rfl rfl
  | _ => exact .keep rfl rfl rfl rfl

theorem inHand_of_drain (h : s'.drain = s.drain) : s'.inHand = s.inHand := by
  rw [inHand, h, inHand]

theorem inHand_of_cancelled (h : s.drain.cancelled = true) : s.inHand = [] := by
  rcases hd : s.drain with _ | message | _ | _ <;> rw [hd] at h
  · cases h
  · cases h
  · rw [inHand, hd]
  · rw [inHand, hd]

theorem cancelled_step (h : Step s a s') (hs : s.drain.cancelled = true) :
    s'.drain.cancelled = true := by
  cases channelEffect h with
  | keep _ _ _ hd | queued _ _ _ _ hd => rw [hd, hs]
  | taken _ hd | written _ hd | failed _ hd | closed _ hd =>
    rw [hd] at hs
    cases hs
  | returned _ _ _ hd => rw [hd]; rfl

theorem failed_concat :
    Failed (actions ++ [a]) ↔ Failed actions ∨ ∃ reached, a = .drainWrite (.error reached) := by
  simp [Failed, exists_or, eq_comm]

theorem cancelled_of_failed (h : run step init actions = some s) (hf : Failed actions) :
    s.drain.cancelled = true := by
  revert hf
  refine history_of_run (P := fun actions s ↦ Failed actions → s.drain.cancelled = true) ?_ ?_ h
  · rintro ⟨reached, hr⟩
    cases hr
  · intro actions s a s' _ hs ha hf
    rcases failed_concat.mp hf with hf | ⟨reached, rfl⟩
    · exact cancelled_step (step_of_eq_some ha) (hs hf)
    · cases step_of_eq_some ha with
      | writeFailed => rfl
      | drop hd => cases hd
      | send hd => rcases hd with hd | ⟨id, hd⟩ <;> cases hd

/-- What was put into the channel is what has been written, what has been lost, and what is still to be
written, in this order. Nothing is lost without a failed write. -/
structure Drained (actions : List Action) (s : System) : Prop where
  carried : ∃ lost, outputs step queued init actions =
    outputs step written init actions ++ (lost ++ (s.inHand ++ s.queue)) ∧ (lost = [] ∨ Failed actions)
  closed : s.drain.cancelled = true → Failed actions ∨ s.queue = [] ∧ s.Abandoned

theorem drained_step (hrun : run step init actions = some s) (hheld : s.CallsHeld)
    (hs : Drained actions s) (h : step s a = some s') : Drained (actions ++ [a]) s' := by
  obtain ⟨⟨lost, hcarried, hlost⟩, hclosed⟩ := hs
  have hq : outputs step queued init (actions ++ [a]) = _ := outputs_concat hrun
  have hw : outputs step written init (actions ++ [a]) = _ := outputs_concat hrun
  have hmono : ∀ {p : Prop}, p ∨ Failed actions → p ∨ Failed (actions ++ [a]) :=
    Or.imp_right fun hf ↦ failed_concat.mpr (.inl hf)
  have hmono' : ∀ {p : Prop}, Failed actions ∨ p → Failed (actions ++ [a]) ∨ p :=
    Or.imp_left fun hf ↦ failed_concat.mpr (.inl hf)
  rw [hcarried] at hq
  cases channelEffect (step_of_eq_some h) with
  | keep hnone hnone' hqueue hdrain =>
    refine ⟨⟨lost, ?_, hmono hlost⟩, fun hc ↦ ?_⟩
    · rw [hq, hw, hnone, hnone', inHand_of_drain hdrain, hqueue, List.append_nil, List.append_nil]
    · rw [hdrain] at hc
      exact (hmono' (hclosed hc)).imp_right fun ho ↦ ⟨hqueue.trans ho.1, (ho.2.step h).1⟩
  | queued hone hnone' hne hqueue hdrain =>
    refine ⟨⟨lost, ?_, hmono hlost⟩, fun hc ↦ ?_⟩
    · rw [hq, hw, hone, hnone', inHand_of_drain hdrain, hqueue]
      simp only [List.append_assoc, List.append_nil]
    · rw [hdrain] at hc
      refine (hmono' (hclosed hc)).imp_right fun ho ↦ ?_
      rw [(ho.2.step h).2] at hone
      cases hone
  | taken ha hidle hqueue hdrain =>
    subst ha
    refine ⟨⟨lost, ?_, hmono hlost⟩, fun hc ↦ ?_⟩
    · rw [hq, hw]
      simp [queued, written, inHand, hidle, hdrain, hqueue]
    · rw [hdrain] at hc
      cases hc
  | written ha hwriting hqueue hdrain =>
    subst ha
    have hnone : lost = [] := by
      refine hlost.resolve_right fun hf ↦ ?_
      have hc := cancelled_of_failed hrun hf
      rw [hwriting] at hc
      cases hc
    refine ⟨⟨[], ?_, .inl rfl⟩, fun hc ↦ ?_⟩
    · rw [hq, hw, hnone]
      simp [queued, written, inHand, hwriting, hdrain, hqueue]
    · rw [hdrain] at hc
      cases hc
  | @failed message reached ha hwriting hqueue hdrain =>
    have hfailed : Failed (actions ++ [a]) := failed_concat.mpr (.inr ⟨reached, ha⟩)
    subst ha
    refine ⟨⟨lost ++ [message], ?_, .inr hfailed⟩, fun _ ↦ .inl hfailed⟩
    rw [hq, hw]
    simp [queued, written, inHand, hwriting, hdrain, hqueue]
  | closed ha hidle hqueue hqueue' hdropped hhandles hdrain =>
    subst ha
    have hleft := (abandoned_of_callsHeld hheld hdropped hhandles).step h
    refine ⟨⟨lost, ?_, hmono hlost⟩, fun _ ↦ .inr ⟨hqueue', hleft.1⟩⟩
    rw [hq, hw]
    simp [queued, written, inHand, hidle, hdrain, hqueue, hqueue']
  | returned ha hreturning hqueue hdrain =>
    subst ha
    have hc : s.drain.cancelled = true := by rw [hreturning]; rfl
    refine ⟨⟨lost ++ s.queue, ?_, ?_⟩, fun _ ↦ ?_⟩
    · rw [hq, hw]
      simp [queued, written, inHand, hreturning, hdrain, hqueue]
    · rcases hclosed hc with hf | ⟨hnone, -⟩
      · exact .inr (failed_concat.mpr (.inl hf))
      · rw [hnone, List.append_nil]
        exact hmono hlost
    · exact (hmono' (hclosed hc)).imp_right fun ho ↦ ⟨hqueue, (ho.2.step h).1⟩

theorem drained_of_run (h : run step init actions = some s) : Drained actions s := by
  refine history_of_run (P := Drained) ⟨⟨[], rfl, .inl rfl⟩, fun hc ↦ ?_⟩ ?_ h
  · cases hc
  · exact fun hrun hs ha ↦ drained_step hrun (callsHeld_of_run hrun) hs ha

end Channel

section Flush

/-- What the drain task does when no write fails and nothing more is sent. -/
def flush (s : System) : List Action :=
  (s.inHand.map fun _ ↦ .drainWrite .ok) ++
    (s.queue.flatMap fun _ ↦ [.drainRecv, .drainWrite .ok]) ++ [.drainRecvNone, .drainReturn]

theorem not_failed_flush : ¬ Failed s.flush := by
  rintro ⟨reached, hmem⟩
  simp [flush] at hmem

theorem queued_flush : ∀ a ∈ s.flush, ∀ t : System, t.queued a = [] := by
  intro a ha t
  simp only [flush, List.mem_append, List.mem_map, List.mem_flatMap, List.mem_cons, List.not_mem_nil,
    or_false] at ha
  rcases ha with (⟨_, -, rfl⟩ | ⟨_, -, rfl | rfl⟩) | rfl | rfl <;> rfl

theorem flush_idle {queue : List QueuedMessage} (hidle : s.drain = .idle) (hqueue : s.queue = queue)
    (hdropped : s.connected = false) (hhandles : ∀ handle ∈ s.handles, handle.alive = false) :
    ∃ s', run step s ((queue.flatMap fun _ ↦ [.drainRecv, .drainWrite .ok]) ++
      [.drainRecvNone, .drainReturn]) = some s' ∧ s'.drain = .exited := by
  induction queue generalizing s with
  | nil =>
    have hclosed : step s .drainRecvNone = some { s with drain := .returning } :=
      if_pos ⟨hidle, hqueue, hdropped, hhandles⟩
    refine ⟨{ s with drain := .exited, queue := [] }, ?_, rfl⟩
    rw [List.flatMap_nil, List.nil_append, run_cons, hclosed]
    rfl
  | cons message queue ih =>
    have htaken : step s .drainRecv = some { s with drain := .writing message, queue } := by
      rw [step, drainRecv, hidle, hqueue]
    obtain ⟨s', hrun, hexited⟩ := @ih { s with
      drain := .idle
      queue := queue
      unanswered := s.unanswered ++ QueuedMessage.received message } rfl rfl hdropped hhandles
    refine ⟨s', ?_, hexited⟩
    rw [List.flatMap_cons, List.append_assoc, List.cons_append, run_cons, htaken]
    exact hrun

theorem flush_run (hs : s.Abandoned) (hc : s.drain.cancelled = false) :
    ∃ s', run step s s.flush = some s' ∧ s'.drain = .exited := by
  rcases hd : s.drain with _ | message | _ | _
  · rw [flush, inHand, hd]
    exact flush_idle hd rfl hs.dropped hs.handles
  · have hwritten : step s (.drainWrite .ok) = some { s with
        drain := .idle
        unanswered := s.unanswered ++ QueuedMessage.received message } := by
      rw [step, drainWrite, hd]
    obtain ⟨s', hrun, hexited⟩ := @flush_idle { s with
      drain := .idle
      unanswered := s.unanswered ++ QueuedMessage.received message } s.queue rfl rfl hs.dropped
        hs.handles
    refine ⟨s', ?_, hexited⟩
    rw [flush, inHand, hd, List.map_singleton, List.append_assoc, List.singleton_append, run_cons,
      hwritten]
    exact hrun
  · rw [hd] at hc
    cases hc
  · rw [hd] at hc
    cases hc

end Flush

/-- The drain task writes what it is given in its order, and until a write fails it loses nothing. If
none fails, it ends only when the connection and all its handles have been dropped, every call has
ended and everything has been written; and then it can come to this end. -/
theorem drains (h : run step init actions = some s) :
    outputs step written init actions <+: outputs step queued init actions ∧
      (¬ Failed actions → outputs step queued init actions =
          outputs step written init actions ++ (s.inHand ++ s.queue) ∧
        (s.drain.cancelled = true → s.inHand ++ s.queue = [] ∧ s.Abandoned)) ∧
      (s.Abandoned → s.drain.cancelled = false →
        ∃ s', run step s s.flush = some s' ∧ s'.drain = .exited ∧
          outputs step written init (actions ++ s.flush) = outputs step queued init actions) := by
  obtain ⟨⟨lost, hcarried, hlost⟩, hclosed⟩ := drained_of_run h
  refine ⟨⟨_, hcarried.symm⟩, fun hok ↦ ⟨?_, fun hc ↦ ?_⟩, fun habandoned hc ↦ ?_⟩
  · rw [hcarried, hlost.resolve_right hok, List.nil_append]
  · obtain ⟨hqueue, habandoned⟩ := (hclosed hc).resolve_left hok
    exact ⟨by rw [inHand_of_cancelled hc, hqueue, List.nil_append], habandoned⟩
  · obtain ⟨s', hrun, hexited⟩ := flush_run habandoned hc
    have hall : run step init (actions ++ s.flush) = some s' := by
      rw [run_append, h]
      exact hrun
    have hok : ¬ Failed (actions ++ s.flush) := by
      rintro ⟨reached, hmem⟩
      rcases List.mem_append.mp hmem with hmem | hmem
      · rw [cancelled_of_failed h ⟨reached, hmem⟩] at hc
        cases hc
      · exact not_failed_flush ⟨reached, hmem⟩
    have hc' : s'.drain.cancelled = true := by rw [hexited]; rfl
    obtain ⟨⟨lost', hcarried', hlost'⟩, hclosed'⟩ := drained_of_run hall
    refine ⟨s', hrun, hexited, ?_⟩
    rw [outputs_append_silent queued_flush, hlost'.resolve_right hok, inHand_of_cancelled hc',
      ((hclosed' hc').resolve_left hok).1] at hcarried'
    simpa using hcarried'.symm

/-- A request times out before it is written, and then everything is dropped. -/
def abandonedRun : List Action :=
  [.clientSender, .request 0, .nextId 0, .tryRegister 0, .enqueue 0, .send, .timeout 0, .dropSender 0,
    .dropConnection]

theorem drains_abandonedRun : ∃ s s', run step init abandonedRun = some s ∧
    run step s s.flush = some s' ∧ s'.drain = .exited ∧
    outputs step written init (abandonedRun ++ s.flush) = [.request 0 firstId, .other] := by
  have hs : ∃ s, run step init abandonedRun = some s ∧ s.connected = false ∧
      (∀ handle ∈ s.handles, handle.alive = false) ∧ s.drain = .idle :=
    ⟨_, rfl, rfl, by decide, rfl⟩
  obtain ⟨s, hrun, hdropped, hhandles, hidle⟩ := hs
  have habandoned := abandoned_of_callsHeld (callsHeld_of_run hrun) hdropped hhandles
  obtain ⟨s', hflush, hexited, hwritten⟩ :=
    (drains hrun).2.2 habandoned (congrArg Drain.cancelled hidle)
  exact ⟨s, s', hrun, hflush, hexited, hwritten⟩

end LspServerTokio.System
