import LspServerTokio.Progress

namespace LspServerTokio.System

open Foundation

variable {s s' : System} {a : Action} {actions more : List Action} {id : RequestId} {k : ℕ}
  {c c' : IdCounter}

section Ids

/-- The call has drawn the id and has not given it up. -/
def Owns (s : System) (k : ℕ) (id : RequestId) : Prop :=
  (∃ attempt, s.phase k = some (.generated attempt id)) ∨ s.Holds k id

theorem owns_step (hn : s.Numbered) (h : Step s a s') (hk : s'.Owns k id) :
    s.Owns k id ∨ a = .nextId k ∧
      ∃ (i : ℕ) (current : IdCounter), s.counters[i]? = some current ∧ current.nextId = some id := by
  rcases hk with ⟨attempt, hk⟩ | hk
  · rcases generated_step h hk with ⟨hk, -⟩ | hnew
    · exact .inl (.inl ⟨attempt, hk⟩)
    · exact .inr hnew
  · left
    cases slotEffect hn h with
    | keep _ hholds | deliver _ _ _ hholds => exact .inr ((hholds k id).mp hk)
    | register _ hp _ hholds =>
      rcases (hholds k id).mp hk with ⟨rfl, rfl⟩ | ⟨-, hk⟩
      · exact .inl hp
      · exact .inr hk
    | receive _ _ _ hholds | drop _ _ hholds => exact .inr ((hholds k id).mp hk).2

/-- No two calls have the same id, and the counter is past all of them. -/
structure Distinct (c : IdCounter) (s : System) : Prop where
  numbered : s.Numbered
  below : ∀ k id, s.Owns k id → Below c id
  unique : ∀ j k id, s.Owns j id → s.Owns k id → j = k

/-- An action that draws an id draws one that the counter has not come to yet. -/
def DrawsNew (c c' : IdCounter) (s : System) (a : Action) : Prop :=
  ∀ (k i : ℕ) (current : IdCounter) id, a = .nextId k → s.counters[i]? = some current →
    current.nextId = some id → ¬ Below c id ∧ Below c' id

namespace Distinct

theorem init : Distinct .new init where
  numbered _ _ := rfl
  below k id hk := by
    rcases hk with ⟨_, hk⟩ | hk | hk <;> cases hk
  unique j k id hj := by
    rcases hj with ⟨_, hj⟩ | hj | hj <;> cases hj

theorem step (hs : Distinct c s) (h : Step s a s') (hc : c ≤ c') (hnew : DrawsNew c c' s a) :
    Distinct c' s' where
  numbered := numbered_step hs.numbered h
  below k id hk := by
    rcases owns_step hs.numbered h hk with hk | ⟨rfl, i, current, hi, hid⟩
    · exact below_mono (hs.below k id hk) hc
    · exact (hnew k i current id rfl hi hid).2
  unique j k id hj hk := by
    rcases owns_step hs.numbered h hj with hj | ⟨ha, i, current, hi, hid⟩ <;>
      rcases owns_step hs.numbered h hk with hk | ⟨ha', i', current', hi', hid'⟩
    · exact hs.unique j k id hj hk
    · exact absurd (hs.below j id hj) (hnew k i' current' id ha' hi' hid').1
    · exact absurd (hs.below k id hk) (hnew j i current id ha hi hid).1
    · exact Action.nextId.inj (ha.symm.trans ha')

/-- Then no call can take away the slot of another one, and no id is drawn in vain. -/
theorem not_dropsDelivered (hs : Distinct c s) (hw : s.EntriesWait) (h : Step s a s') :
    ¬ s.DropsDelivered a := by
  rintro ⟨k, id, reply, hd, ho, hc⟩
  have hk : s.Holds k id := by
    cases slotEffect hs.numbered h with
    | keep hnone | receive hnone => cases hnone.symm.trans hd
    | register ha | deliver ha =>
      subst ha
      cases hd
    | drop ha hk =>
      cases ha.symm.trans hd
      exact hk
  obtain ⟨j, hj⟩ := contains_eq_true.mp hc
  obtain ⟨hheld, hwaits⟩ := hw id j hj
  cases hs.unique j k id (.inr hheld) (.inr hk)
  cases ho.symm.trans hwaits

theorem free {attempt : ℕ} (hs : Distinct c s) (hw : s.EntriesWait)
    (hk : s.phase k = some (.generated attempt id)) : s.responseMap.pending id = none := by
  by_contra hm
  obtain ⟨j, hj⟩ := Option.ne_none_iff_exists'.mp hm
  have hheld := (hw id j hj).1
  cases hs.unique j k id (.inr hheld) (.inl ⟨attempt, hk⟩)
  exact not_holds hk (by simp) id hheld

end Distinct

end Ids

section OneCounter

/-- What an action does to the only counter, as long as there is only one. -/
theorem counter_step (h : Step s a s')
    (hone : s.counters.length + (if a.isClientSender then 1 else 0) ≤ 1)
    (hcount : s.counter + (if a.isNextId then 1 else 0) ≤ i32Max) :
    s'.counters.length ≤ s.counters.length + (if a.isClientSender then 1 else 0) ∧
      s.counter ≤ s'.counter ∧ s'.counter ≤ s.counter + (if a.isNextId then 1 else 0) ∧
      DrawsNew s.counter s'.counter s a := by
  rcases counters_step h with
    ⟨rfl, hc⟩ | ⟨k, handle, current, id, rfl, -, hi, -, hc⟩ | ⟨ha, hc⟩
  · simp only [Action.isClientSender, Action.isNextId, if_true, Bool.false_eq_true, if_false]
      at hone hcount ⊢
    have hnil : s.counters = [] := List.length_eq_zero_iff.mp (by omega)
    have hcounter : s'.counter = s.counter := by simp [counter, hc, hnil]
    refine ⟨?_, hcounter.ge, by omega, fun _ _ _ _ ha ↦ (by cases ha)⟩
    rw [hc, List.length_append, List.length_singleton]
  · simp only [Action.isClientSender, Action.isNextId, if_true, Bool.false_eq_true, if_false]
      at hone hcount ⊢
    obtain ⟨hzero, hcs⟩ := eq_singleton_of_getElem? hi (by omega)
    rw [hzero] at hc
    have hcounter : s.counter = current := by simp [counter, hcs]
    have hlt : s.counter < i32Max := by omega
    have hnext : s'.counter = IdCounter.next s.counter := by simp [counter, hc, hcs]
    have hadd : s'.counter = s.counter + 1 := hnext.trans (if_neg (not_le.mpr hlt))
    refine ⟨?_, by omega, by omega, fun j i c id _ hi hid ↦ ?_⟩
    · rw [hc, List.length_set]
      omega
    · obtain ⟨-, hcs'⟩ := eq_singleton_of_getElem? hi (by omega)
      cases hcs.symm.trans hcs'
      rw [hnext]
      exact nextId_new (hcounter ▸ hid) hlt
  · have hcounter : s'.counter = s.counter := by simp [counter, hc]
    refine ⟨?_, hcounter.ge, ?_, fun k _ _ _ hk ↦ absurd hk (ha k)⟩
    · rw [hc]
      omega
    · rw [hcounter]
      split_ifs <;> omega

/-- With one counter that does not come round, all calls have different ids all along. -/
theorem distinct_of_one_counter (hs : Distinct s.counter s)
    (hone : s.counters.length + actions.countP Action.isClientSender ≤ 1)
    (hcount : s.counter + actions.countP Action.isNextId ≤ i32Max) :
    Each step (fun t _ ↦ Distinct t.counter t) s actions := by
  induction actions generalizing s with
  | nil => exact each_nil
  | cons a actions ih =>
    refine each_cons.mpr fun t ht ↦ ⟨hs, ?_⟩
    have hstep := step_of_eq_some ht
    rw [List.countP_cons] at hone hcount
    push_cast at hcount
    obtain ⟨hlength, hle, hadd, hnew⟩ := counter_step hstep (by omega) (by omega)
    exact ih (hs.step hstep hle hnew) (by omega) (by omega)

end OneCounter

/-- As long as the connection hands out one sender only, which does not come round with its ids, and
the other side only answers, the calls of this sender and of all its clones have exact slots and fresh
ids: whatever went before, each of them that is under way ends with the answer to its own message. -/
theorem calls_answered (h : run step init actions = some s) (hopen : s.Open)
    (hmore : ∀ a ∈ more, a.Serves) (hrun : run step s more = some s') (hsettled : s'.Settled)
    (hanswers : ∀ response, .peerSend response ∉ actions)
    (hone : actions.countP Action.isClientSender ≤ 1)
    (hcount : 1 + ((actions ++ more).countP Action.isNextId : ℤ) ≤ i32Max) {p : Phase}
    (hk : s.phase k = some p) (hp : p.isEnded = false) :
    ∃ reply, s'.phase k = some (.ended (.response reply)) ∧ reply.origin = some k := by
  have hall : run step init (actions ++ more) = some s' := by
    rw [run_append, h]
    exact hrun
  have hsender : (actions ++ more).countP Action.isClientSender ≤ 1 := by
    have hnone : more.countP Action.isClientSender = 0 := by
      refine List.countP_eq_zero.mpr fun a ha hsender ↦ ?_
      cases a with
      | clientSender => exact hmore _ ha
      | _ => cases hsender
    rw [List.countP_append]
    omega
  have hone' : init.counters.length + (actions ++ more).countP Action.isClientSender ≤ 1 :=
    (Nat.zero_add _).trans_le hsender
  have hdistinct := distinct_of_one_counter (s := init) Distinct.init hone' hcount
  have hcovered : s.CallWaiters ∧ s.Covered := by
    refine history_of_each (P := fun _ t ↦ t.CallWaiters ∧ t.Covered) ⟨CallWaiters.init, Covered.init⟩
      (fun hs ht hd ↦ ?_) hdistinct.left h
    have hstep := step_of_eq_some ht
    exact ⟨hs.1.step hstep, (hs.2.step_iff hs.1.entry hs.1.numbered hstep).mpr
      (hd.not_dropsDelivered hs.1.entry hstep)⟩
  have hserving : Serving True False k s :=
    ⟨hcovered.1, hopen, hcovered.2, p, hk, goes_of_not_ended hk hp fun _ ↦ trivial⟩
  have hserved : Serving True False k s' := by
    refine history_of_each (P := fun _ ↦ Serving True False k) hserving (fun hs ht hd ↦ ?_)
      (hdistinct.right h).and_mem hrun
    refine hs.step (hmore _ hd.1) (step_of_eq_some ht) fun attempt id j hj hm _ ↦ ?_
    cases (hd.2.free hs.waiters.entry hj).symm.trans hm
  rcases hserved.settled hsettled with ⟨hfalse, -⟩ | ⟨reply, hreply⟩
  · exact hfalse.elim
  · have hfresh := freshIds_of_one_counter (s := init) GivenOnce.init hone' hcount
    have hcorrelated := correlated_of_run (only_answers hanswers hmore) hfresh hall
    exact ⟨reply, hreply, hcorrelated.returned k reply hreply⟩

/-- The first call is given up after its message was written, and then a second one starts. -/
def abandonedCallRun : List Action :=
  [.clientSender, .cloneSender 0,
    .request 0, .nextId 0, .tryRegister 0, .enqueue 0, .drainRecv, .drainWrite .ok, .timeout 0,
    .request 1]

theorem calls_answered_abandoned : ∃ s more s' reply, run step init abandonedCallRun = some s ∧
    (∀ a ∈ more, a.Serves) ∧ run step s more = some s' ∧
    s'.phase 1 = some (.ended (.response reply)) ∧ reply.origin = some 1 := by
  let more : List Action :=
    [.nextId 1, .tryRegister 1, .enqueue 1, .drainRecv, .drainWrite .ok,
      .peerAnswer 0 (.success .null), .routeBegin 0, .routeContains, .routeComplete,
      .peerAnswer 0 (.success .null), .routeBegin 0, .routeContains, .routeDeliver, .receive 1]
  have hmore : ∀ a ∈ more, a.Serves := by simp [more, Action.Serves]
  have hs : ∃ s s', run step init abandonedCallRun = some s ∧ run step s more = some s' ∧ s.Open ∧
      s.phase 1 = some (.reserving 0) ∧ s'.work = 0 ∧ s'.Open :=
    ⟨_, _, rfl, rfl, ⟨rfl, rfl, rfl⟩, rfl, by decide, ⟨rfl, rfl, rfl⟩⟩
  obtain ⟨s, s', hrun, hserved, hopen, hk, hwork, hopen'⟩ := hs
  have hall : run step init (abandonedCallRun ++ more) = some s' := by
    rw [run_append, hrun]
    exact hserved
  have hsettled := settled_of_stuck hall hopen' fun a ha ↦
    stuck_of_work (callWaiters_of_run hall).numbered hwork ha
  obtain ⟨reply, hreply, horigin⟩ := calls_answered hrun hopen hmore hserved hsettled
    (by simp [abandonedCallRun]) (by decide) (by decide) hk rfl
  exact ⟨s, more, s', reply, hrun, hmore, hserved, hreply, horigin⟩

end LspServerTokio.System
