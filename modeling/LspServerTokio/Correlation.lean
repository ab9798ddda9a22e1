import LspServerTokio.FreshIds
import LspServerTokio.Slots

namespace LspServerTokio.System

open Foundation

variable {s s' : System} {id : RequestId} {j k : ℕ}

/-- Every call that has returned a response has returned the answer to its own message. -/
def OwnAnswers (s : System) : Prop :=
  ∀ k reply, s.phase k = some (.ended (.response reply)) → reply.origin = some k

/-- Every response on its way here is the answer to a request. -/
def Answering (s : System) : Prop :=
  (∀ reply ∈ s.inbound, reply.origin ≠ none) ∧ ∀ r, s.routing = some r → r.reply.origin ≠ none

theorem response_step {a : Action} {reply : Reply} (h : Step s a s')
    (hk : s'.phase k = some (.ended (.response reply))) :
    s.phase k = some (.ended (.response reply)) ∨ s.oneshot k = .sent reply := by
  have hinsert : ∀ {i : ℕ} {p : Phase}, s'.phase = s.phase.insert i p →
      p ≠ .ended (.response reply) → s.phase k = some (.ended (.response reply)) := by
    intro i p hp hne
    rcases Table.insert_eq_some.mp (hp ▸ hk) with ⟨-, h⟩ | ⟨-, h⟩
    · exact absurd h hne
    · exact h
  cases h with
  | request | nextId | register | enqueue => exact .inl (hinsert rfl (by simp))
  | retry _ _ hnext =>
    exact .inl (hinsert rfl (by rcases hnext with rfl | rfl <;> simp))
  | receive hp ho =>
    rcases Table.insert_eq_some.mp hk with ⟨rfl, h⟩ | ⟨-, h⟩
    · cases h
      exact .inr ho
    · exact .inl h
  | drop _ _ hresult => exact .inl (hinsert rfl (by simpa using hresult reply))
  | _ => exact .inl hk

theorem Answering.step {a : Action} (hs : s.Answering) (h : Step s a s')
    (ha : ∀ response, a ≠ .peerSend response) : s'.Answering := by
  cases h with
  | routeNull => exact ⟨fun reply h ↦ hs.1 reply (List.mem_of_mem_eraseIdx h), hs.2⟩
  | routeBegin hi =>
    refine ⟨fun reply h ↦ hs.1 reply (List.mem_of_mem_eraseIdx h), fun r hr ↦ ?_⟩
    cases hr
    exact hs.1 _ (List.mem_of_getElem? hi)
  | routeFound hr | routeAbsent hr | routeGone hr =>
    refine ⟨hs.1, fun r hr' ↦ ?_⟩
    cases hr'
    have ho := hs.2 _ hr
    exact ho
  | routeDeliver | routeComplete | routeUnknown => exact ⟨hs.1, fun r hr ↦ nomatch hr⟩
  | peerAnswer =>
    refine ⟨fun reply h ↦ ?_, hs.2⟩
    rcases List.mem_append.mp h with h | h
    · exact hs.1 reply h
    · cases List.mem_singleton.mp h
      exact nofun
  | peerSend => exact absurd rfl (ha _)
  | _ => exact hs

/-- What keeps a response from reaching the wrong call. -/
structure Correlated (s : System) : Prop where
  numbered : s.Numbered
  answering : s.Answering
  entry : ∀ id k j, s.responseMap.pending id = some k → s.Outstanding id j → j = k
  channel : ∀ k reply, s.oneshot k = .sent reply → reply.origin = some k
  returned : s.OwnAnswers

namespace Correlated

theorem init : Correlated init where
  numbered _ _ := rfl
  answering := ⟨fun _ h ↦ (nomatch h), fun _ h ↦ nomatch h⟩
  entry _ _ _ h := nomatch h
  channel _ _ h := nomatch h
  returned _ _ h := nomatch h

theorem entry_step {a : Action} (hs : s.Correlated) (h : Step s a s')
    (hm : s.responseMap.pending id = some k) (ho : s'.Outstanding id j) : j = k := by
  rcases outstanding_step h ho with ho | ⟨-, -, hnone⟩
  · exact hs.entry id k j hm ho
  · rw [hm] at hnone
    exact nomatch hnone

theorem entry_register {a : Action} {i : ℕ} {newId : RequestId} (hs : s.Correlated)
    (h : Step s a s') (hfresh : s.FreshId a) (ha : a = .tryRegister i)
    (hp : ∃ attempt, s.phase i = some (.generated attempt newId))
    (hnone : s.responseMap.pending newId = none)
    (hm : s.responseMap.pending.insert newId i id = some k) (ho : s'.Outstanding id j) : j = k := by
  rcases Table.insert_eq_some.mp hm with ⟨rfl, rfl⟩ | ⟨-, hm⟩
  · rcases outstanding_step h ho with ho | ⟨ha', -, -⟩
    · obtain ⟨attempt, hp⟩ := hp
      exact absurd ho (hfresh i attempt id ha hp hnone j)
    · cases ha.symm.trans ha'
      rfl
  · exact hs.entry_step h hm ho

theorem channel_deliver {reply : Reply} (hs : s.Correlated)
    (hr : s.routing = some ⟨reply, id, .deliver⟩) (hm : s.responseMap.pending id = some k) :
    reply.origin = some k := by
  obtain ⟨j, hj⟩ := Option.ne_none_iff_exists'.mp (hs.answering.2 _ hr)
  have ho : s.Outstanding id j := .inr (.inr (.inr ⟨_, hr, hj, rfl⟩))
  exact hs.entry id k j hm ho ▸ hj

theorem entry_next {a : Action} (hs : s.Correlated) (h : Step s a s') (hfresh : s.FreshId a)
    (hm : s'.responseMap.pending id = some k) (ho : s'.Outstanding id j) : j = k := by
  cases slotEffect hs.numbered h with
  | keep _ _ _ hmap | receive _ _ _ _ _ hmap => exact hs.entry_step h (hmap ▸ hm) ho
  | register ha hp hnone _ _ hmap =>
    exact hs.entry_register h hfresh ha hp hnone (hmap ▸ hm) ho
  | drop _ _ _ _ hmap | deliver _ _ _ _ _ hmap =>
    rw [hmap, Table.remove_eq_some] at hm
    exact hs.entry_step h hm.2 ho

theorem channel_next {a : Action} (hs : s.Correlated) (h : Step s a s') {reply : Reply}
    (ho : s'.oneshot k = .sent reply) : reply.origin = some k := by
  rcases sent_step hs.numbered h ho with ho | ⟨id, hr, hm⟩
  · exact hs.channel k reply ho
  · exact hs.channel_deliver hr hm

theorem step {a : Action} (hs : s.Correlated) (h : Step s a s')
    (ha : ∀ response, a ≠ .peerSend response) (hfresh : s.FreshId a) : s'.Correlated where
  numbered := numbered_step hs.numbered h
  answering := hs.answering.step h ha
  entry _ _ _ := hs.entry_next h hfresh
  channel _ _ := hs.channel_next h
  returned k reply hk := by
    rcases response_step h hk with hk | ho
    · exact hs.returned k reply hk
    · exact hs.channel k reply ho

end Correlated

/-- If the other side only answers, and no id is registered while an earlier message with this id is
outstanding, then every call that returns a response returns the answer to its own message. -/
theorem own_answers_of_fresh_ids {actions : List Action}
    (hanswers : ∀ response, .peerSend response ∉ actions)
    (hfresh : Each step FreshId init actions) : Always step OwnAnswers init actions := by
  refine always_mono (fun _ ↦ Correlated.returned) (always_of_each ?_ Correlated.init hfresh.and_mem)
  intro s a s' hs h hall
  obtain ⟨hmem, hfresh⟩ := hall
  refine hs.step (step_of_eq_some h) ?_ hfresh
  rintro response rfl
  exact hanswers response hmem

/-- Two calls through a handle and its clone. The first one is abandoned after it was written, and
its answer comes in before that of the second one. -/
def clonedRun : List Action :=
  [.clientSender, .cloneSender 0,
    .request 0, .nextId 0, .tryRegister 0, .enqueue 0, .drainRecv, .drainWrite .ok, .timeout 0,
    .request 1, .nextId 1, .tryRegister 1, .enqueue 1, .drainRecv, .drainWrite .ok,
    .peerAnswer 0 (.success .null), .routeBegin 0, .routeContains, .routeComplete,
    .peerAnswer 0 (.success .null), .routeBegin 0, .routeContains, .routeDeliver, .receive 1]

theorem own_answers_clonedRun : Always step OwnAnswers init clonedRun ∧
    ∃ s reply, run step init clonedRun = some s ∧ s.phase 1 = some (.ended (.response reply)) :=
  ⟨own_answers_of_fresh_ids (by simp [clonedRun])
    (freshIds_of_one_counter GivenOnce.init (by decide) (by decide)), _, _, rfl, rfl⟩

/-- Two handles from the same connection count from 1. The first request is abandoned after it was
written, the second one registers the same id, and the answer to the first one comes in. -/
def lateAnswerRun : List Action :=
  [.clientSender, .clientSender,
    .request 0, .nextId 0, .tryRegister 0, .enqueue 0, .drainRecv, .drainWrite .ok, .timeout 0,
    .request 1, .nextId 1, .tryRegister 1, .enqueue 1, .drainRecv, .drainWrite .ok,
    .peerAnswer 0 (.success .null), .routeBegin 0, .routeContains, .routeDeliver, .receive 1]

theorem not_own_answers : ∃ s reply, run step init lateAnswerRun = some s ∧
    s.phase 1 = some (.ended (.response reply)) ∧ reply.origin = some 0 ∧
    (∀ response, .peerSend response ∉ lateAnswerRun) ∧
    ¬ Always step OwnAnswers init lateAnswerRun := by
  have hs : ∃ s reply, run step init lateAnswerRun = some s ∧
      s.phase 1 = some (.ended (.response reply)) ∧ reply.origin = some 0 :=
    ⟨_, _, rfl, rfl, rfl⟩
  obtain ⟨s, reply, hrun, hp, ho⟩ := hs
  refine ⟨s, reply, hrun, hp, ho, by simp [lateAnswerRun], fun h ↦ ?_⟩
  have he := h lateAnswerRun [] s (List.append_nil _).symm hrun 1 reply hp
  exact nomatch ho.symm.trans he

end LspServerTokio.System
