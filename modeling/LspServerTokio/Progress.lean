import LspServerTokio.Draining
import LspServerTokio.Correlation
import LspServerTokio.IdSequence
import LspServerTokio.SlotOwnership
import LspServerTokio.Waiters

namespace LspServerTokio

open Foundation

/-- The steps that a call and its message can still take. -/
def Phase.work : Phase → ℕ
  | .reserving attempt => 11 + 2 * (maxRetries - attempt)
  | .generated attempt _ => 10 + 2 * (maxRetries - attempt)
  | .registered _ => 9
  | .waiting _ => 1
  | .ended _ => 0

def Drain.work : Drain → ℕ
  | .writing _ => 6
  | _ => 0

def RouteStep.work : RouteStep → ℕ
  | .contains => 3
  | .deliver => 2
  | .complete => 1

namespace System

variable {s s' : System} {a : Action} {actions more : List Action} {id : RequestId} {k : ℕ}

/-- The steps of calls that go on, of a drain task whose writes succeed, of the other side when it
answers, and of a loop that routes what comes in. -/
def Action.Serves : Action → Prop
  | .nextId _ | .tryRegister _ | .enqueue _ | .receive _ | .drainRecv | .drainWrite .ok
  | .peerAnswer _ _ | .routeBegin _ | .routeContains | .routeDeliver | .routeComplete => True
  | _ => False

/-- The connection is there, and neither its receiver nor its drain task has come to an end. -/
structure Open (s : System) : Prop where
  connected : s.connected = true
  streaming : s.endOfStream = false
  running : s.drain.cancelled = false

section Work

def work (s : System) : ℕ :=
  ∑ k ∈ Finset.range s.started, (s.phase k).elim 0 Phase.work + 7 * s.queue.length + s.drain.work +
    5 * s.unanswered.length + 4 * s.inbound.length + s.routing.elim 0 (·.next.work)

theorem phase_work {p : Phase} (hn : s.Numbered) (hk : s.phase k = some p) (q : Phase) :
    ∑ j ∈ Finset.range s.started, (s.phase.insert k q j).elim 0 Phase.work + p.work =
      ∑ j ∈ Finset.range s.started, (s.phase j).elim 0 Phase.work + q.work := by
  refine Table.sum_insert (Finset.mem_range.mpr ?_) hk q
  by_contra hge
  rw [hn k (not_lt.mp hge)] at hk
  cases hk

theorem attempt_lt {attempt : ℕ} (h : step s (.tryRegister k) = some s')
    (hk : s'.phase k = some (.reserving attempt)) : attempt < maxRetries := by
  simp only [step, tryRegister] at h
  split at h
  · next hp =>
    split at h
    · cases h
      simp at hk
    · split_ifs at h with hlt <;> cases h
      · simp at hk
        exact hk ▸ hlt
      · simp at hk
  · cases h

theorem length_received (message : QueuedMessage) : (QueuedMessage.received message).length ≤ 1 := by
  cases message <;> simp [QueuedMessage.received]

theorem work_step (hn : s.Numbered) (ha : a.Serves) (h : step s a = some s') : s'.work < s.work := by
  cases step_of_eq_some h with
  | @nextId k attempt _ _ id hp =>
    have hsum := phase_work hn hp (.generated attempt id)
    simp only [work, Phase.work] at hsum ⊢
    omega
  | @register k _ id hp =>
    have hsum := phase_work hn hp (.registered id)
    simp only [work, Phase.work] at hsum ⊢
    omega
  | @retry k attempt _ _ next hp _ hnext =>
    have hsum := phase_work hn hp next
    rcases hnext with rfl | rfl
    · have hlt := attempt_lt h (Table.insert_self _ _ _)
      simp only [work, Phase.work] at hsum ⊢
      omega
    · simp only [work, Phase.work] at hsum ⊢
      omega
  | @enqueue k id hp =>
    have hsum := phase_work hn hp (.waiting id)
    simp only [work, Phase.work, List.length_append, List.length_singleton] at hsum ⊢
    omega
  | @receive k id reply hp =>
    have hsum := phase_work hn hp (.ended (.response reply))
    simp only [work, Phase.work] at hsum ⊢
    omega
  | @drop _ k id result _ hp =>
    have hpos : ∃ p, s.phase k = some p ∧ 0 < p.work := by
      rcases hp with hp | hp <;> exact ⟨_, hp, by simp [Phase.work]⟩
    obtain ⟨p, hp, hpos⟩ := hpos
    have hsum := phase_work hn hp (.ended result)
    have hended : (Phase.ended result).work = 0 := rfl
    simp only [work, finish, cleanup] at hsum ⊢
    omega
  | drainRecv hd hq =>
    simp only [work, hd, hq, Drain.work, List.length_cons]
    omega
  | @written message hd =>
    have hreceived := length_received message
    simp only [work, hd, Drain.work, List.length_append]
    omega
  | peerAnswer hi =>
    have hlength := List.length_eraseIdx_add_one (List.getElem?_eq_some_iff.mp hi).1
    simp only [work, List.length_append, List.length_singleton]
    omega
  | routeNull hi =>
    have hlength := List.length_eraseIdx_add_one (List.getElem?_eq_some_iff.mp hi).1
    simp only [work]
    omega
  | routeBegin hi hf =>
    have hlength := List.length_eraseIdx_add_one (List.getElem?_eq_some_iff.mp hi).1
    simp only [work, hf.2, Option.elim_some, Option.elim_none, RouteStep.work]
    omega
  | routeFound hr | routeAbsent hr | routeDeliver hr | routeGone hr | routeComplete hr
  | routeUnknown hr =>
    simp only [work, hr, Option.elim_some, Option.elim_none, RouteStep.work]
    omega
  | send hs => rcases hs with rfl | ⟨id, rfl⟩ <;> exact ha.elim
  | _ => exact ha.elim

theorem stuck_of_work (hn : s.Numbered) (hs : s.work = 0) (ha : a.Serves) : step s a = none := by
  by_contra hsome
  obtain ⟨t, ht⟩ := Option.ne_none_iff_exists'.mp hsome
  have hlt := work_step hn ha ht
  omega

end Work

section Awaited

/-- A call that waits has its entry, its message or the answer to it is on its way, and no `route`
call has passed the entry by. -/
structure Awaited (s : System) : Prop where
  entry : ∀ k id, s.Holds k id → s.oneshot k = .waiting → s.responseMap.pending id = some k
  outstanding : ∀ k id, s.responseMap.pending id = some k →
    s.drain.cancelled = true ∨ s.Outstanding id k
  passed : ∀ k r, s.routing = some r → r.next = .complete → r.reply.origin = some k →
    s.responseMap.pending r.id ≠ some k
  unsent : ∀ k id, s.Unregistered k → ¬ s.Outstanding id k

theorem pending_step (h : Step s a s') (hm : s'.responseMap.pending id = some k) :
    s.responseMap.pending id = some k ∨ s.Unregistered k ∧ s'.phase k = some (.registered id) := by
  cases h with
  | register hp =>
    rcases Table.insert_eq_some.mp hm with ⟨rfl, rfl⟩ | ⟨-, hm⟩
    · exact .inr ⟨by rw [Unregistered, hp]; rfl, Table.insert_self _ _ _⟩
    · exact .inl hm
  | drop | routeDeliver => exact .inl (Table.remove_eq_some.mp hm).2
  | _ => exact .inl hm

theorem entry_step (hs : s.Awaited) (hw : s.CallWaiters) (h : Step s a s') (hk : s'.Holds k id)
    (ho : s'.oneshot k = .waiting) : s'.responseMap.pending id = some k := by
  cases slotEffect hw.numbered h with
  | keep _ hholds hone hmap =>
    rw [hmap]
    exact hs.entry k id ((hholds k id).mp hk) (hone ▸ ho)
  | register _ _ hfree hholds hone hmap =>
    rw [hmap, Table.insert_eq_some]
    rcases (hholds k id).mp hk with ⟨rfl, rfl⟩ | ⟨hne, hk⟩
    · exact .inl ⟨rfl, rfl⟩
    · rw [hone] at ho
      have hm := hs.entry k id hk ((if_neg hne).symm.trans ho)
      refine .inr ⟨?_, hm⟩
      rintro rfl
      rw [hm] at hfree
      cases hfree
  | receive _ _ _ hholds hone hmap =>
    rw [hmap]
    exact hs.entry k id ((hholds k id).mp hk).2 (hone ▸ ho)
  | drop _ _ hholds hone hmap =>
    rw [hone] at ho
    dsimp only at ho
    split_ifs at ho with hown
    · exact absurd ho Oneshot.drop_ne_waiting
    · have hm := hs.entry k id ((hholds k id).mp hk).2 ho
      rw [hmap, Table.remove_eq_some]
      refine ⟨?_, hm⟩
      rintro rfl
      exact hown hm
  | deliver _ _ hown hholds hone hmap =>
    rw [hone] at ho
    dsimp only at ho
    split_ifs at ho with hne
    · rw [hne, (hw.entry _ _ hown).2] at ho
      cases ho
    · have hm := hs.entry k id ((hholds k id).mp hk) ho
      rw [hmap, Table.remove_eq_some]
      refine ⟨?_, hm⟩
      rintro rfl
      exact hne (Option.some.inj (hm.symm.trans hown))

theorem ToSend.insert {j : ℕ} {p : Phase} (h : s.ToSend id k) (hj : s.phase j ≠ some (.registered id))
    (hphase : s'.phase = s.phase.insert j p) (hqueue : s'.queue = s.queue)
    (hdrain : s'.drain = s.drain) : s'.ToSend id k := by
  rw [ToSend, hphase, hqueue, hdrain]
  refine h.imp_left fun hk ↦ ?_
  have hne : k ≠ j := by
    rintro rfl
    exact hj hk
  rw [Table.insert_of_ne _ _ hne, hk]

theorem ToSend.append {message : QueuedMessage} (h : s.ToSend id k) (hphase : s'.phase = s.phase)
    (hqueue : s'.queue = s.queue ++ [message]) (hdrain : s'.drain = s.drain) : s'.ToSend id k := by
  rw [ToSend, hphase, hqueue, hdrain]
  exact h.imp_right (Or.imp_left (List.mem_append_left _))

theorem toSend_next (hn : s.Numbered) (h : Step s a s') (hm : s'.responseMap.pending id = some k)
    (ho : s.ToSend id k) : s'.drain.cancelled = true ∨ s'.Outstanding id k := by
  cases h with
  | request => exact .inr (.inl (ho.insert (by simp [hn _ le_rfl]) rfl rfl rfl))
  | nextId hp | register hp | retry hp | receive hp =>
    exact .inr (.inl (ho.insert (by simp [hp]) rfl rfl rfl))
  | @drop _ j i _ _ hp =>
    refine .inr (.inl (ho.insert (fun he ↦ ?_) rfl rfl rfl))
    have hi : i = id := by
      rcases hp with hp | hp <;> rw [hp] at he <;> cases he
      rfl
    exact (Table.remove_eq_some.mp hm).1 hi.symm
  | @enqueue j i hp hd =>
    refine .inr (.inl ?_)
    rcases ho with hk | hk | hk
    · by_cases hj : k = j
      · subst hj
        rw [hp] at hk
        cases hk
        exact .inr (.inl (List.mem_append_right _ (List.mem_singleton_self _)))
      · exact .inl ((Table.insert_of_ne _ _ hj).trans hk)
    · exact .inr (.inl (List.mem_append_left _ hk))
    · exact .inr (.inr hk)
  | cancelOutgoing | sent => exact .inr (.inl (ho.append rfl rfl rfl))
  | drainRecv hd hq =>
    refine .inr (.inl ?_)
    rcases ho with hk | hk | hk
    · exact .inl hk
    · rw [hq] at hk
      rcases List.mem_cons.mp hk with rfl | hk
      · exact .inr (.inr rfl)
      · exact .inr (.inl hk)
    · rw [hd] at hk
      cases hk
  | written hd =>
    right
    rcases ho with hk | hk | hk
    · exact .inl (.inl hk)
    · exact .inl (.inr (.inl hk))
    · cases hd.symm.trans hk
      exact .inr (.inl (List.mem_append_right _ (mem_received.mpr rfl)))
  | writeFailed | drainRecvNone | drainReturn => exact .inl rfl
  | _ => exact .inr (.inl ho)

theorem toAnswer_next (hs : s.Awaited) (h : Step s a s') (hk : s.responseMap.pending id = some k)
    (hm : s'.responseMap.pending id = some k) (ho : s.ToAnswer id k) : s'.ToAnswer id k := by
  have herase : ∀ {reply : Reply} {i : ℕ}, s.inbound[i]? = some reply →
      (∃ reply ∈ s.inbound, reply.origin = some k ∧ reply.response.id = some id) →
      (∃ reply ∈ s.inbound.eraseIdx i, reply.origin = some k ∧ reply.response.id = some id) ∨
        reply.origin = some k ∧ reply.response.id = some id := by
    rintro reply i hi ⟨own, hmem, hown⟩
    obtain ⟨j, hj⟩ := List.mem_iff_getElem?.mp hmem
    by_cases hij : j = i
    · subst hij
      cases hi.symm.trans hj
      exact .inr hown
    · exact .inl ⟨own, List.mem_eraseIdx_iff_getElem?.mpr ⟨j, hij, hj⟩, hown⟩
  cases h with
  | routeNull hi _ hid =>
    rcases ho with ho | ho | ho
    · exact .inl ho
    · refine .inr (.inl ((herase hi ho).resolve_right fun hown ↦ ?_))
      rw [hid] at hown
      cases hown.2
    · exact .inr (.inr ho)
  | routeBegin hi hf hid =>
    rcases ho with ho | ho | ⟨r, hr, -⟩
    · exact .inl ho
    · rcases herase hi ho with ho | ⟨horigin, hown⟩
      · exact .inr (.inl ho)
      · exact .inr (.inr ⟨_, rfl, horigin, Option.some.inj (hid.symm.trans hown)⟩)
    · rw [hf.2] at hr
      cases hr
  | routeFound hr | routeAbsent hr | routeGone hr =>
    refine ho.imp_right (Or.imp_right ?_)
    rintro ⟨r, hr', hown⟩
    cases hr.symm.trans hr'
    exact ⟨_, rfl, hown⟩
  | routeDeliver hr =>
    refine ho.imp_right (Or.imp_right ?_)
    rintro ⟨r, hr', -, rfl⟩
    cases hr.symm.trans hr'
    exact absurd rfl (Table.remove_eq_some.mp hm).1
  | routeComplete hr | routeUnknown hr =>
    refine ho.imp_right (Or.imp_right ?_)
    rintro ⟨r, hr', horigin, rfl⟩
    cases hr.symm.trans hr'
    exact absurd hk (hs.passed k _ hr rfl horigin)
  | written | writeFailed => exact ho.imp_left (List.mem_append_left _)
  | @peerAnswer i j own _ hi =>
    rcases ho with ho | ⟨reply, hmem, hown⟩ | ho
    · obtain ⟨n, hn⟩ := List.mem_iff_getElem?.mp ho
      by_cases hin : n = i
      · subst hin
        cases hi.symm.trans hn
        exact .inr (.inl ⟨_, List.mem_append_right _ (List.mem_singleton_self _), rfl, rfl⟩)
      · exact .inl (List.mem_eraseIdx_iff_getElem?.mpr ⟨n, hin, hn⟩)
    · exact .inr (.inl ⟨reply, List.mem_append_left _ hmem, hown⟩)
    · exact .inr (.inr ho)
  | peerSend =>
    refine ho.imp_right (Or.imp_left ?_)
    rintro ⟨reply, hmem, hown⟩
    exact ⟨reply, List.mem_append_left _ hmem, hown⟩
  | _ => exact ho

theorem registered_of_free {attempt : ℕ} (h : Step s (.tryRegister k) s')
    (hp : s.phase k = some (.generated attempt id)) (hm : s.responseMap.pending id = none) :
    s'.phase k = some (.registered id) := by
  cases h with
  | register hp' =>
    cases hp.symm.trans hp'
    exact Table.insert_self _ _ _
  | retry hp' hm' =>
    cases hp.symm.trans hp'
    cases hm.symm.trans hm'
  | drop hd => cases hd
  | send hs => rcases hs with hs | ⟨_, hs⟩ <;> cases hs

namespace Awaited

theorem init : Awaited init where
  entry k id hk := by
    rcases hk with hk | hk <;> cases hk
  outstanding k id hm := by cases hm
  passed k r hr := by cases hr
  unsent k id _ ho := by
    rcases ho with (ho | ho | ho) | ho | ⟨_, ho, -⟩ | ⟨_, ho, -⟩ <;> cases ho

theorem passed_step (hs : s.Awaited) (hempty : s.MapEmpty) (h : Step s a s') {r : Routing}
    (hr : s'.routing = some r) (hnext : r.next = .complete) (horigin : r.reply.origin = some k) :
    s'.responseMap.pending r.id ≠ some k := by
  intro hm
  have hkept : s'.routing = s.routing → False := by
    intro he
    rw [he] at hr
    rcases pending_step h hm with hm | ⟨hu, -⟩
    · exact hs.passed k r hr hnext horigin hm
    · exact hs.unsent k r.id hu (.inr (.inr (.inr ⟨r, hr, horigin, rfl⟩)))
  cases h with
  | routeBegin | routeFound =>
    cases hr
    cases hnext
  | routeAbsent _ habsent =>
    cases hr
    rcases habsent with hc | hnone
    · cases (hempty.pending hc _).symm.trans hm
    · cases hnone.symm.trans hm
  | routeGone _ hnone =>
    cases hr
    cases hnone.symm.trans hm
  | routeDeliver | routeComplete | routeUnknown => cases hr
  | _ => exact hkept rfl

theorem step (hs : s.Awaited) (hw : s.CallWaiters) (hempty : s.MapEmpty) (h : Step s a s') :
    s'.Awaited where
  entry _ _ := entry_step hs hw h
  outstanding k id hm := by
    rcases pending_step h hm with hk | ⟨-, hk⟩
    · rcases hs.outstanding k id hk with hc | ho | ho
      · exact .inl (cancelled_step h hc)
      · exact toSend_next hw.numbered h hm ho
      · exact .inr (.inr (toAnswer_next hs h hk hm ho))
    · exact .inr (.inl (.inl hk))
  passed _ _ := passed_step hs hempty h
  unsent k id hu ho := by
    rcases outstanding_step h ho with ho | ⟨rfl, ⟨attempt, hp⟩, hm⟩
    · exact hs.unsent k id (unregistered_step hw.numbered h hu) ho
    · rw [Unregistered, registered_of_free h hp hm] at hu
      cases hu

end Awaited

theorem awaited_of_run (h : run step init actions = some s) : s.Awaited := by
  refine history_of_run (P := fun _ ↦ Awaited) Awaited.init ?_ h
  exact fun hr hs ha ↦ hs.step (callWaiters_of_run hr) (mapEmpty_of_run hr) (step_of_eq_some ha)

end Awaited

section Settled

/-- Nothing is on its way, and no call is under way. -/
structure Settled (s : System) : Prop where
  routing : s.routing = none
  inbound : s.inbound = []
  unanswered : s.unanswered = []
  drain : s.drain = .idle
  queue : s.queue = []
  ended : ∀ k p, s.phase k = some p → p.isEnded = true

/-- Every handle has a counter. -/
def Counted (s : System) : Prop := ∀ handle ∈ s.handles, handle.counter < s.counters.length

theorem counted_step (hs : s.Counted) (h : Step s a s') : s'.Counted := by
  cases h with
  | clientSender =>
    intro handle hmem
    rw [List.length_append, List.length_singleton]
    rcases List.mem_append.mp hmem with hmem | hmem
    · exact Nat.lt_succ_of_lt (hs handle hmem)
    · rw [List.mem_singleton.mp hmem]
      exact Nat.lt_succ_self _
  | cloneSender hi =>
    intro handle hmem
    rcases List.mem_append.mp hmem with hmem | hmem
    · exact hs handle hmem
    · rw [List.mem_singleton.mp hmem]
      exact hs _ (List.mem_of_getElem? hi)
  | dropSender hi =>
    intro handle hmem
    rcases List.mem_or_eq_of_mem_set hmem with hmem | rfl
    · exact hs handle hmem
    · have hlt := hs _ (List.mem_of_getElem? hi)
      exact hlt
  | nextId =>
    intro handle hmem
    rw [List.length_set]
    exact hs handle hmem
  | _ => exact hs

theorem counted_of_run (h : run step init actions = some s) : s.Counted :=
  invariant_of_run (fun hs ha ↦ counted_step hs (step_of_eq_some ha)) (fun _ hmem ↦ (by cases hmem)) h

theorem nextId_enabled {attempt : ℕ} (h : run step init actions = some s)
    (hk : s.phase k = some (.reserving attempt)) : step s (.nextId k) ≠ none := by
  obtain ⟨i, hi⟩ := callsHeld_of_run h k _ hk rfl
  have hlt : i < s.counters.length := counted_of_run h _ (List.mem_of_getElem? hi)
  have hc := List.getElem?_eq_getElem hlt
  have hmem := Cycle.after_mem (by decide : 0 < i32Max) 1 (generated actions i).length
  rw [← (goesRound_of_run h).counter i _ hc] at hmem
  have hid := nextId_eq_cyclicId hmem.1 hmem.2
  simp [step, nextId, hk, hi, hc, hid]

/-- Without a step that serves, nothing is left to do. -/
theorem settled_of_stuck (h : run step init actions = some s) (hopen : s.Open)
    (hstuck : ∀ a : Action, a.Serves → step s a = none) : s.Settled := by
  have hrouting : s.routing = none := by
    rcases hr : s.routing with _ | ⟨reply, id, next⟩
    · rfl
    · cases next with
      | contains =>
        have hnone := hstuck .routeContains trivial
        simp only [step, routeContains, hr] at hnone
        split_ifs at hnone
      | deliver =>
        have hnone := hstuck .routeDeliver trivial
        simp only [step, routeDeliver, hr] at hnone
        split at hnone <;> cases hnone
      | complete =>
        have hnone := hstuck .routeComplete trivial
        simp only [step, routeComplete, hr] at hnone
        split at hnone <;> cases hnone
  have hinbound : s.inbound = [] := by
    rcases hi : s.inbound with _ | ⟨reply, inbound⟩
    · rfl
    · have hnone := hstuck (.routeBegin 0) trivial
      have hfree : s.Free := ⟨hopen.connected, hrouting⟩
      simp only [step, routeBegin, hi, List.getElem?_cons_zero, if_pos hfree] at hnone
      split at hnone <;> cases hnone
  have hunanswered : s.unanswered = [] := by
    rcases hu : s.unanswered with _ | ⟨own, unanswered⟩
    · rfl
    · have hnone := hstuck (.peerAnswer 0 (.success .null)) trivial
      simp [step, peerAnswer, hu, hopen.streaming] at hnone
  have hdrain : s.drain = .idle := by
    have hrunning := hopen.running
    rcases hd : s.drain with _ | message | _ | _
    · rfl
    · have hnone := hstuck (.drainWrite .ok) trivial
      simp [step, drainWrite, hd] at hnone
    · rw [hd] at hrunning
      cases hrunning
    · rw [hd] at hrunning
      cases hrunning
  have hqueue : s.queue = [] := by
    rcases hq : s.queue with _ | ⟨message, queue⟩
    · rfl
    · have hnone := hstuck .drainRecv trivial
      simp [step, drainRecv, hdrain, hq] at hnone
  have hnotOutstanding : ∀ k id, s.phase k = some (.waiting id) → ¬ s.Outstanding id k := by
    rintro k id hk ((ho | ho | ho) | ho | ⟨_, ho, -⟩ | ⟨_, ho, -⟩)
    · cases hk.symm.trans ho
    · simp [hqueue] at ho
    · simp [hdrain] at ho
    · simp [hunanswered] at ho
    · simp [hinbound] at ho
    · simp [hrouting] at ho
  refine ⟨hrouting, hinbound, hunanswered, hdrain, hqueue, fun k p hk ↦ ?_⟩
  cases p with
  | reserving attempt => exact absurd (hstuck (.nextId k) trivial) (nextId_enabled h hk)
  | generated attempt id =>
    have hnone := hstuck (.tryRegister k) trivial
    simp only [step, tryRegister, hk] at hnone
    split at hnone
    · cases hnone
    · split_ifs at hnone
  | registered id =>
    have hnone := hstuck (.enqueue k) trivial
    simp [step, enqueue, hk, hdrain] at hnone
  | waiting id =>
    have hnone := hstuck (.receive k) trivial
    rcases ho : s.oneshot k with _ | reply | _
    · have hawaited := awaited_of_run h
      rcases hawaited.outstanding k id (hawaited.entry k id (.inr hk) ho) with hc | ho
      · rw [hopen.running] at hc
        cases hc
      · exact absurd ho (hnotOutstanding k id hk)
    · simp [step, receive, hk, ho] at hnone
    · simp [step, receive, hk, ho] at hnone
  | ended result => rfl

end Settled

section Answers

theorem Open.step (hs : s.Open) (ha : a.Serves) (h : Step s a s') : s'.Open := by
  cases h with
  | drainRecv | written => exact ⟨hs.connected, hs.streaming, rfl⟩
  | writeFailed | drainRecvNone | drainReturn | receiverEnd | dropConnection => exact ha.elim
  | _ => exact ⟨hs.connected, hs.streaming, hs.running⟩

/-- Where a call is that goes on until it has a response or has tried in vain to get a slot. -/
inductive Goes (early failed : Prop) : Phase → Prop
  | reserving {attempt : ℕ} : early → Goes early failed (.reserving attempt)
  | generated {attempt : ℕ} {id : RequestId} : early → Goes early failed (.generated attempt id)
  | registered {id : RequestId} : Goes early failed (.registered id)
  | waiting {id : RequestId} : Goes early failed (.waiting id)
  | response {reply : Reply} : Goes early failed (.ended (.response reply))
  | failed : failed → Goes early failed (.ended (.error (.io reserveError)))

theorem goes_of_not_ended {early failed : Prop} {p : Phase} (hk : s.phase k = some p)
    (hp : p.isEnded = false) (hearly : s.Unregistered k → early) : Goes early failed p := by
  cases p with
  | reserving => exact .reserving (hearly (by rw [Unregistered, hk]; rfl))
  | generated => exact .generated (hearly (by rw [Unregistered, hk]; rfl))
  | registered => exact .registered
  | waiting => exact .waiting
  | ended => cases hp

/-- A call that is not dropped goes on. -/
theorem goes_step {early failed : Prop} {p : Phase} (hn : s.Numbered) (h : Step s a s')
    (hd : s.dropped a = none) (hk : s.phase k = some p) (hp : Goes early failed p)
    (hretry : ∀ attempt id j, s.phase k = some (.generated attempt id) →
      s.responseMap.pending id = some j → early → failed) :
    ∃ q, s'.phase k = some q ∧ Goes early failed q := by
  have hinsert : ∀ {j : ℕ} {p' q : Phase}, s.phase j = some p' → s'.phase = s.phase.insert j q →
      (k = j → p = p' → Goes early failed q) → ∃ q, s'.phase k = some q ∧ Goes early failed q := by
    intro j p' q hj hphase hq
    rw [hphase]
    by_cases hkj : k = j
    · subst hkj
      exact ⟨q, Table.insert_self _ _ _, hq rfl (Option.some.inj (hk.symm.trans hj))⟩
    · exact ⟨p, (Table.insert_of_ne _ _ hkj).trans hk, hp⟩
  cases h with
  | request =>
    have hne : k ≠ s.started := by
      rintro rfl
      rw [hn _ le_rfl] at hk
      cases hk
    exact ⟨p, (Table.insert_of_ne _ _ hne).trans hk, hp⟩
  | nextId hj =>
    refine hinsert hj rfl fun _ he ↦ ?_
    cases he ▸ hp with
    | reserving hearly => exact .generated hearly
  | register hj => exact hinsert hj rfl fun _ _ ↦ .registered
  | retry hj hm hnext =>
    refine hinsert hj rfl fun hkj he ↦ ?_
    cases he ▸ hp with
    | generated hearly =>
      rcases hnext with rfl | rfl
      · exact .reserving hearly
      · exact .failed (hretry _ _ _ (hkj ▸ hj) hm hearly)
  | enqueue hj => exact hinsert hj rfl fun _ _ ↦ .waiting
  | receive hj => exact hinsert hj rfl fun _ _ ↦ .response
  | drop ha => cases hd.symm.trans ha
  | _ => exact ⟨p, hk, hp⟩

/-- While the connection serves, no call is dropped that has its slot. -/
theorem not_dropped (hs : s.Covered) (hw : s.CallWaiters) (hopen : s.Open) (ha : a.Serves) :
    s.dropped a = none := by
  cases a with
  | enqueue k =>
    simp only [dropped]
    split
    · refine if_neg fun hexited ↦ ?_
      have hrunning := hopen.running
      rw [hexited] at hrunning
      cases hrunning
    · rfl
  | receive k =>
    simp only [dropped]
    split
    · next id hp ho =>
      have hm := hs id k (.inr hp) (by simp [ho])
      cases ho.symm.trans (hw.entry id k hm).2
    · rfl
  | drainExit | timeout | abort => exact ha.elim
  | _ => rfl

/-- An open connection with exact slots, and a call on it. -/
structure Serving (early failed : Prop) (k : ℕ) (s : System) : Prop where
  waiters : s.CallWaiters
  isOpen : s.Open
  covered : s.Covered
  call : ∃ p, s.phase k = some p ∧ Goes early failed p

theorem Serving.step {early failed : Prop} (hs : Serving early failed k s) (ha : a.Serves)
    (h : Step s a s') (hretry : ∀ attempt id j, s.phase k = some (.generated attempt id) →
      s.responseMap.pending id = some j → early → failed) : Serving early failed k s' := by
  have hd := not_dropped hs.covered hs.waiters hs.isOpen ha
  obtain ⟨p, hk, hp⟩ := hs.call
  refine ⟨hs.waiters.step h, hs.isOpen.step ha h, ?_, goes_step hs.waiters.numbered h hd hk hp hretry⟩
  exact (hs.covered.step_iff hs.waiters.entry hs.waiters.numbered h).mpr (not_dropsDelivered hd)

theorem Serving.settled {early failed : Prop} (hs : Serving early failed k s) (hsettled : s.Settled) :
    failed ∧ s.phase k = some (.ended (.error (.io reserveError))) ∨
      ∃ reply, s.phase k = some (.ended (.response reply)) := by
  obtain ⟨p, hk, hp⟩ := hs.call
  cases hp with
  | response => exact .inr ⟨_, hk⟩
  | failed hfailed => exact .inl ⟨hfailed, hk⟩
  | _ => cases hsettled.ended k _ hk

theorem only_answers (hanswers : ∀ response, .peerSend response ∉ actions)
    (hmore : ∀ a ∈ more, a.Serves) : ∀ response, .peerSend response ∉ actions ++ more := by
  intro response hmem
  rcases List.mem_append.mp hmem with hmem | hmem
  · exact hanswers response hmem
  · exact hmore _ hmem

theorem correlated_of_run (hanswers : ∀ response, .peerSend response ∉ actions)
    (hfresh : Each step FreshId init actions) (h : run step init actions = some s) :
    s.Correlated := by
  refine always_of_each (P := Correlated) ?_ Correlated.init hfresh.and_mem actions [] s
    (List.append_nil _).symm h
  intro s a s' hs hstep hall
  obtain ⟨hmem, hfresh⟩ := hall
  refine hs.step (step_of_eq_some hstep) ?_ hfresh
  rintro response rfl
  exact hanswers response hmem

end Answers

/-- However a run on an open connection goes on, if the drain task writes, the other side answers and
what comes in is routed, then this comes to an end, and at the end no call is left waiting. If the
slots are exact, then every call that was under way has got a response, unless it had no slot and has
found none; and if moreover the ids are fresh and the other side only answers, it is the answer to the
message of this call. -/
theorem calls_end (h : run step init actions = some s) (hopen : s.Open) :
    (∃ more s', (∀ a ∈ more, a.Serves) ∧ run step s more = some s' ∧ s'.Settled) ∧
    ∀ more s', (∀ a ∈ more, a.Serves) → run step s more = some s' →
      more.length ≤ s.work ∧
      ((∀ a : Action, a.Serves → step s' a = none) → s'.Settled) ∧
      (s.SlotsExact → s'.Settled → ∀ k p, s.phase k = some p → p.isEnded = false →
        s.Unregistered k ∧ s'.phase k = some (.ended (.error (.io reserveError))) ∨
        ∃ reply, s'.phase k = some (.ended (.response reply)) ∧
          ((∀ response, .peerSend response ∉ actions) → Each step FreshId init (actions ++ more) →
            reply.origin = some k)) := by
  have hwaiters := callWaiters_of_run h
  have hstep : ∀ {t a t'}, t.Numbered ∧ t.Open → a.Serves → System.step t a = some t' →
      (t'.Numbered ∧ t'.Open) ∧ t'.work < t.work := by
    intro t a t' ht ha hstep
    have hnext := step_of_eq_some hstep
    exact ⟨⟨numbered_step ht.1 hnext, ht.2.step ha hnext⟩, work_step ht.1 ha hstep⟩
  have hall : ∀ {more s'}, run step s more = some s' → run step init (actions ++ more) = some s' := by
    intro more s' hrun
    rw [run_append, h]
    exact hrun
  have hend : ∀ {more s'}, (∀ a ∈ more, a.Serves) → run step s more = some s' →
      (∀ a : Action, a.Serves → System.step s' a = none) → s'.Settled := by
    intro more s' hmore hrun hstuck
    exact settled_of_stuck (hall hrun)
      (length_le_of_rank hstep ⟨hwaiters.numbered, hopen⟩ hmore hrun).1.2 hstuck
  constructor
  · obtain ⟨more, s', hmore, hrun, hstuck⟩ := exists_run_stuck hstep ⟨hwaiters.numbered, hopen⟩
    exact ⟨more, s', hmore, hrun, hend hmore hrun hstuck⟩
  intro more s' hmore hrun
  have hlength := (length_le_of_rank hstep ⟨hwaiters.numbered, hopen⟩ hmore hrun).2
  refine ⟨(Nat.le_add_right _ _).trans hlength, hend hmore hrun, ?_⟩
  intro hexact hsettled k p hk hp
  have hserving : Serving (s.Unregistered k) (s.Unregistered k) k s :=
    ⟨hwaiters, hopen, (slotsExact_iff_covered hwaiters.entry).mp hexact, p, hk,
      goes_of_not_ended hk hp id⟩
  have hserved : Serving (s.Unregistered k) (s.Unregistered k) k s' ∧ more.length + s'.work ≤ s.work := by
    refine length_le_of_rank (fun hs ha hstep ↦ ⟨?_, ?_⟩) hserving hmore hrun
    · exact hs.step ha (step_of_eq_some hstep) fun _ _ _ _ _ ↦ id
    · exact work_step hs.waiters.numbered ha hstep
  refine (hserved.1.settled hsettled).imp_right ?_
  rintro ⟨reply, hk'⟩
  refine ⟨reply, hk', fun hanswers hfresh ↦ ?_⟩
  exact (correlated_of_run (only_answers hanswers hmore) hfresh (hall hrun)).returned k reply hk'

/-- A call whose message is in the channel. -/
def askedRun : List Action := [.clientSender, .request 0, .nextId 0, .tryRegister 0, .enqueue 0]

def servedRun : List Action :=
  [.drainRecv, .drainWrite .ok, .peerAnswer 0 (.success .null), .routeBegin 0, .routeContains,
    .routeDeliver, .receive 0]

theorem serves_servedRun : ∀ a ∈ servedRun, a.Serves := by
  simp [servedRun, Action.Serves]

theorem run_servedRun : ∃ s s', run step init askedRun = some s ∧ run step s servedRun = some s' ∧
    s.Open ∧ s.SlotsExact ∧ s.phase 0 = some (.waiting firstId) ∧ s'.Numbered ∧ s'.work = 0 := by
  have hs : ∃ s s', run step init askedRun = some s ∧ run step s servedRun = some s' ∧ s.Open ∧
      s.started = 1 ∧ s.phase 0 = some (.waiting firstId) ∧
      s.responseMap.pending firstId = some 0 ∧ s'.work = 0 :=
    ⟨_, _, rfl, rfl, ⟨rfl, rfl, rfl⟩, rfl, rfl, rfl, by decide⟩
  obtain ⟨s, s', hasked, hserved, hopen, hstarted, hk, hm, hwork⟩ := hs
  have hwaiters := callWaiters_of_run hasked
  have hall : run step init (askedRun ++ servedRun) = some s' := by
    rw [run_append, hasked]
    exact hserved
  refine ⟨s, s', hasked, hserved, hopen, ?_, hk, (callWaiters_of_run hall).numbered, hwork⟩
  refine (slotsExact_iff_covered hwaiters.entry).mpr fun id k hheld _ ↦ ?_
  have hzero : k = 0 := by
    by_contra hne
    have hnone := hwaiters.numbered k (by omega)
    rcases hheld with hheld | hheld <;> cases hnone.symm.trans hheld
  subst hzero
  rw [hheld.id_unique (.inr hk), hm]

theorem calls_end_served : ∃ s s' reply, run step init askedRun = some s ∧
    run step s servedRun = some s' ∧ s'.Settled ∧ s'.phase 0 = some (.ended (.response reply)) ∧
    reply.origin = some 0 := by
  obtain ⟨s, s', hasked, hserved, hopen, hexact, hk, hn, hwork⟩ := run_servedRun
  obtain ⟨-, hsettled, hresponse⟩ := (calls_end hasked hopen).2 _ _ serves_servedRun hserved
  have hend := hsettled fun a ha ↦ stuck_of_work hn hwork ha
  rcases hresponse hexact hend 0 _ hk rfl with ⟨hu, -⟩ | ⟨reply, hreply, horigin⟩
  · rw [Unregistered, hk] at hu
    cases hu
  · refine ⟨s, s', reply, hasked, hserved, hend, hreply, horigin (by simp [askedRun]) ?_⟩
    exact freshIds_of_one_counter GivenOnce.init (by decide) (by decide)

end System

end LspServerTokio
