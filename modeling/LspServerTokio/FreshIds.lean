import LspServerTokio.Foundation.Runs
import LspServerTokio.Steps

namespace LspServerTokio.System

open Foundation

variable {s s' : System} {id : RequestId} {j k : ℕ}

/-- The message of the call `j`, under `id`, is still to be sent or on its way. -/
def ToSend (s : System) (id : RequestId) (j : ℕ) : Prop :=
  s.phase j = some (.registered id) ∨ .request j id ∈ s.queue ∨ s.drain = .writing (.request j id)

/-- The message of the call `j`, under `id`, is unanswered, or its answer is still to be routed. -/
def ToAnswer (s : System) (id : RequestId) (j : ℕ) : Prop :=
  (j, id) ∈ s.unanswered ∨
    (∃ reply ∈ s.inbound, reply.origin = some j ∧ reply.response.id = some id) ∨
    ∃ r, s.routing = some r ∧ r.reply.origin = some j ∧ r.id = id

def Outstanding (s : System) (id : RequestId) (j : ℕ) : Prop := s.ToSend id j ∨ s.ToAnswer id j

/-- An id is only registered when no earlier message with this id is outstanding. -/
def FreshId (s : System) (a : Action) : Prop :=
  ∀ k attempt id, a = .tryRegister k → s.phase k = some (.generated attempt id) →
    s.responseMap.pending id = none → ∀ j, ¬ s.Outstanding id j

theorem mem_received {message : QueuedMessage} :
    (j, id) ∈ QueuedMessage.received message ↔ message = .request j id := by
  cases message <;> simp [QueuedMessage.received, eq_comm]

theorem ToSend.of_insert {p : Phase} (h : s'.ToSend id j) (hp : p ≠ .registered id)
    (hphase : s'.phase = s.phase.insert k p) (hqueue : s'.queue = s.queue)
    (hdrain : s'.drain = s.drain) : s.ToSend id j := by
  rw [ToSend, hphase, hqueue, hdrain] at h
  refine h.imp_left fun h ↦ ?_
  rcases Table.insert_eq_some.mp h with ⟨-, h⟩ | ⟨-, h⟩
  · exact absurd h hp
  · exact h

theorem ToSend.of_append {message : QueuedMessage} (h : s'.ToSend id j)
    (hm : message ≠ .request j id) (hphase : s'.phase = s.phase)
    (hqueue : s'.queue = s.queue ++ [message]) (hdrain : s'.drain = s.drain) : s.ToSend id j := by
  rw [ToSend, hphase, hqueue, hdrain, List.mem_append, List.mem_singleton] at h
  refine h.imp_right (Or.imp_left fun h ↦ h.resolve_right ?_)
  exact fun he ↦ hm he.symm

theorem toSend_step {a : Action} (h : Step s a s') (ho : s'.ToSend id j) :
    s.ToSend id j ∨
      a = .tryRegister j ∧ (∃ attempt, s.phase j = some (.generated attempt id)) ∧
        s.responseMap.pending id = none := by
  cases h with
  | request | nextId | receive | drop => exact .inl (ho.of_insert (by simp) rfl rfl rfl)
  | retry _ _ hnext =>
    refine .inl (ho.of_insert ?_ rfl rfl rfl)
    rcases hnext with rfl | rfl <;> simp
  | @register k attempt i hp hm =>
    rcases ho with h | h
    · rcases Table.insert_eq_some.mp h with ⟨rfl, he⟩ | ⟨-, h⟩
      · cases he
        exact .inr ⟨rfl, ⟨attempt, hp⟩, hm⟩
      · exact .inl (.inl h)
    · exact .inl (.inr h)
  | @enqueue k i hp =>
    left
    rcases ho with h | h | h
    · rcases Table.insert_eq_some.mp h with ⟨-, h⟩ | ⟨-, h⟩
      · exact nomatch h
      · exact .inl h
    · rcases List.mem_append.mp h with h | h
      · exact .inr (.inl h)
      · cases List.mem_singleton.mp h
        exact .inl hp
    · exact .inr (.inr h)
  | cancelOutgoing | sent => exact .inl (ho.of_append (by simp) rfl rfl rfl)
  | drainRecv hd hq =>
    left
    rcases ho with h | h | h
    · exact .inl h
    · exact .inr (.inl (hq ▸ List.mem_cons_of_mem _ h))
    · cases h
      exact .inr (.inl (hq ▸ List.mem_cons_self))
  | written | writeFailed | drainRecvNone =>
    left
    rcases ho with h | h | h
    · exact .inl h
    · exact .inr (.inl h)
    · exact nomatch h
  | drainReturn =>
    left
    rcases ho with h | h | h
    · exact .inl h
    · exact nomatch h
    · exact nomatch h
  | _ => exact .inl ho

theorem toAnswer_step {a : Action} (h : Step s a s') (ho : s'.ToAnswer id j) :
    s.ToAnswer id j ∨ s.drain = .writing (.request j id) := by
  cases h with
  | routeNull =>
    refine .inl (ho.imp_right (Or.imp_left ?_))
    exact fun ⟨reply, h, ho⟩ ↦ ⟨reply, List.mem_of_mem_eraseIdx h, ho⟩
  | routeBegin hi _ hid =>
    refine .inl (ho.imp_right ?_)
    intro hall
    rcases hall with ⟨reply, h, ho⟩ | ⟨r, hr, ho, he⟩
    · exact .inl ⟨reply, List.mem_of_mem_eraseIdx h, ho⟩
    · cases hr
      exact .inl ⟨_, List.mem_of_getElem? hi, ho, he ▸ hid⟩
  | routeFound hr | routeAbsent hr | routeGone hr =>
    refine .inl (ho.imp_right (Or.imp_right ?_))
    intro hall
    obtain ⟨r, hr', ho⟩ := hall
    cases hr'
    exact ⟨_, hr, ho⟩
  | routeDeliver | routeComplete | routeUnknown =>
    refine .inl (ho.imp_right (Or.imp_right ?_))
    exact fun ⟨r, hr, _⟩ ↦ nomatch hr
  | written hd =>
    rcases ho with h | h
    · rcases List.mem_append.mp h with h | h
      · exact .inl (.inl h)
      · exact .inr (mem_received.mp h ▸ hd)
    · exact .inl (.inr h)
  | @writeFailed _ reached hd =>
    rcases ho with h | h
    · rcases List.mem_append.mp h with h | h
      · exact .inl (.inl h)
      · cases reached with
        | false => exact nomatch h
        | true => exact .inr (mem_received.mp h ▸ hd)
    · exact .inl (.inr h)
  | peerAnswer hi =>
    left
    rcases ho with h | ⟨reply, h, ho⟩ | h
    · exact .inl (List.mem_of_mem_eraseIdx h)
    · rcases List.mem_append.mp h with h | h
      · exact .inr (.inl ⟨reply, h, ho⟩)
      · cases List.mem_singleton.mp h
        obtain ⟨hj, he⟩ := ho
        cases hj
        cases he
        exact .inl (List.mem_of_getElem? hi)
    · exact .inr (.inr h)
  | peerSend =>
    refine .inl (ho.imp_right (Or.imp_left ?_))
    intro hall
    obtain ⟨reply, h, ho⟩ := hall
    rcases List.mem_append.mp h with h | h
    · exact ⟨reply, h, ho⟩
    · cases List.mem_singleton.mp h
      exact nomatch ho.1
  | _ => exact .inl ho

/-- A message becomes outstanding when its id is registered, and at no other time. -/
theorem outstanding_step {a : Action} (h : Step s a s') (ho : s'.Outstanding id j) :
    s.Outstanding id j ∨
      a = .tryRegister j ∧ (∃ attempt, s.phase j = some (.generated attempt id)) ∧
        s.responseMap.pending id = none := by
  rcases ho with ho | ho
  · exact (toSend_step h ho).imp_left .inl
  · rcases toAnswer_step h ho with ho | hd
    · exact .inl (.inr ho)
    · exact .inl (.inl (.inr (.inr hd)))

section OneCounter

def Action.isClientSender : Action → Bool
  | .clientSender => true
  | _ => false

def Action.isNextId : Action → Bool
  | .nextId _ => true
  | _ => false

def counter (s : System) : ℤ := s.counters.headD .new

def Below (c : IdCounter) (id : RequestId) : Prop := ∃ n : I32, id = .integer n ∧ n.val < c

/-- Every id in use was given out once, and one that has still to be registered is in no message. -/
structure GivenOnce (c : IdCounter) (s : System) : Prop where
  outstanding : ∀ id j, s.Outstanding id j → Below c id
  below : ∀ k attempt id, s.phase k = some (.generated attempt id) → Below c id
  unsent : ∀ k attempt id, s.phase k = some (.generated attempt id) → ∀ j, ¬ s.Outstanding id j
  unique : ∀ k attempt j attempt' id, s.phase k = some (.generated attempt id) →
    s.phase j = some (.generated attempt' id) → j = k

theorem below_mono {c c' : IdCounter} (h : Below c id) (hc : c ≤ c') : Below c' id := by
  obtain ⟨n, rfl, hn⟩ := h
  exact ⟨n, rfl, lt_of_lt_of_le hn hc⟩

theorem nextId_new {c : IdCounter} (h : c.nextId = some id) (hc : c < i32Max) :
    ¬ Below c id ∧ Below c.next id := by
  obtain ⟨n, hn, rfl⟩ := Option.map_eq_some_iff.mp h
  have hcn : c = n.val := I32.tryFrom_eq_some.mp hn
  have hnext : c.next = c + 1 := if_neg (not_le.mpr hc)
  constructor
  · intro hall
    obtain ⟨m, he, hm⟩ := hall
    cases he
    exact lt_irrefl _ (hcn ▸ hm)
  · exact ⟨n, rfl, hnext ▸ hcn ▸ Int.lt_add_one_of_le le_rfl⟩

/-- A call has an id to register if it had it before or takes it from its counter. -/
theorem generated_step {a : Action} {attempt : ℕ} (h : Step s a s')
    (hk : s'.phase k = some (.generated attempt id)) :
    s.phase k = some (.generated attempt id) ∧ a ≠ .tryRegister k ∨
      a = .nextId k ∧ ∃ (i : ℕ) (current : IdCounter), s.counters[i]? = some current ∧ current.nextId = some id := by
  have hinsert : ∀ {i : ℕ} {p : Phase}, s'.phase = s.phase.insert i p →
      p ≠ .generated attempt id → k ≠ i ∧ s.phase k = some (.generated attempt id) := by
    intro i p hp hne
    rcases Table.insert_eq_some.mp (hp ▸ hk) with ⟨-, h⟩ | h
    · exact absurd h hne
    · exact h
  cases h with
  | nextId _ _ hc hid =>
    rcases Table.insert_eq_some.mp hk with ⟨rfl, h⟩ | ⟨-, h⟩
    · cases h
      exact .inr ⟨rfl, _, _, hc, hid⟩
    · exact .inl ⟨h, nofun⟩
  | request | enqueue | receive => exact .inl ⟨(hinsert rfl (by simp)).2, nofun⟩
  | register =>
    obtain ⟨hne, hk⟩ := hinsert rfl (by simp)
    exact .inl ⟨hk, fun he ↦ hne (Action.tryRegister.inj he).symm⟩
  | retry _ _ hnext =>
    obtain ⟨hne, hk⟩ := hinsert rfl (by rcases hnext with rfl | rfl <;> simp)
    exact .inl ⟨hk, fun he ↦ hne (Action.tryRegister.inj he).symm⟩
  | drop ha _ _ =>
    refine .inl ⟨(hinsert rfl (by simp)).2, ?_⟩
    rintro rfl
    exact nomatch ha
  | send ha =>
    refine .inl ⟨hk, ?_⟩
    rintro rfl
    simp at ha
  | _ => exact .inl ⟨hk, nofun⟩

namespace GivenOnce

theorem init : GivenOnce .new init where
  outstanding id j h := by
    rcases h with (h | h | h) | h | ⟨_, h, -⟩ | ⟨_, h, -⟩ <;> exact nomatch h
  below _ _ _ h := nomatch h
  unsent _ _ _ h := nomatch h
  unique _ _ _ _ _ h := nomatch h

theorem freshId {c : IdCounter} (hs : GivenOnce c s) (a : Action) : s.FreshId a :=
  fun k attempt id _ hk _ ↦ hs.unsent k attempt id hk

theorem step {c c' : IdCounter} {a : Action} (hs : GivenOnce c s) (h : Step s a s') (hc : c ≤ c')
    (hnew : ∀ (i : ℕ) (current : IdCounter) id, (∃ k, a = .nextId k) → s.counters[i]? = some current →
      current.nextId = some id → ¬ Below c id ∧ Below c' id) : GivenOnce c' s' where
  outstanding id j ho := by
    rcases outstanding_step h ho with ho | ⟨-, ⟨attempt, hp⟩, -⟩
    · exact below_mono (hs.outstanding id j ho) hc
    · exact below_mono (hs.below j attempt id hp) hc
  below k attempt id hk := by
    rcases generated_step h hk with ⟨hk, -⟩ | ⟨ha, i, current, hi, hid⟩
    · exact below_mono (hs.below k attempt id hk) hc
    · exact (hnew i current id ⟨k, ha⟩ hi hid).2
  unsent k attempt id hk j ho := by
    rcases generated_step h hk with ⟨hk, hne⟩ | ⟨ha, i, current, hi, hid⟩
    · rcases outstanding_step h ho with ho | ⟨ha, ⟨attempt', hp⟩, -⟩
      · exact hs.unsent k attempt id hk j ho
      · exact hne (hs.unique k attempt j attempt' id hk hp ▸ ha)
    · rcases outstanding_step h ho with ho | ⟨ha', -⟩
      · exact (hnew i current id ⟨k, ha⟩ hi hid).1 (hs.outstanding id j ho)
      · exact nomatch ha.symm.trans ha'
  unique k attempt j attempt' id hk hj := by
    rcases generated_step h hk with ⟨hk, -⟩ | ⟨ha, i, current, hi, hid⟩ <;>
      rcases generated_step h hj with ⟨hj, -⟩ | ⟨ha', i', current', hi', hid'⟩
    · exact hs.unique k attempt j attempt' id hk hj
    · exact absurd (hs.below k attempt id hk) (hnew i' current' id ⟨j, ha'⟩ hi' hid').1
    · exact absurd (hs.below j attempt' id hj) (hnew i current id ⟨k, ha⟩ hi hid).1
    · exact (Action.nextId.inj (ha.symm.trans ha')).symm

end GivenOnce

theorem eq_singleton_of_getElem? {cs : List IdCounter} {i : ℕ} {c : IdCounter}
    (hi : cs[i]? = some c) (hlen : cs.length ≤ 1) : i = 0 ∧ cs = [c] := by
  rcases cs with _ | ⟨d, _ | ⟨e, cs⟩⟩
  · exact nomatch hi
  · rcases i with _ | i
    · cases hi
      exact ⟨rfl, rfl⟩
    · exact nomatch hi
  · simp at hlen

/-- With one counter that does not come round no id is ever used twice. -/
theorem freshIds_of_one_counter {actions : List Action} (hs : GivenOnce s.counter s)
    (hone : s.counters.length + actions.countP Action.isClientSender ≤ 1)
    (hcount : s.counter + actions.countP Action.isNextId ≤ i32Max) :
    Each step FreshId s actions := by
  induction actions generalizing s with
  | nil => exact each_nil
  | cons a actions ih =>
    refine each_cons.mpr fun t ht ↦ ⟨hs.freshId a, ?_⟩
    have hstep := step_of_eq_some ht
    rw [List.countP_cons] at hone hcount
    rcases counters_step hstep with
      ⟨rfl, hc⟩ | ⟨k, handle, current, id, rfl, -, hi, -, hc⟩ | ⟨ha, hc⟩
    · simp only [Action.isClientSender, Action.isNextId, if_true, Bool.false_eq_true, if_false]
        at hone hcount
      have hnil : s.counters = [] := List.length_eq_zero_iff.mp (by omega)
      have hcounter : t.counter = s.counter := by simp [counter, hc, hnil]
      refine ih (hs.step hstep hcounter.ge ?_) ?_ (hcounter ▸ hcount)
      · rintro - - - ⟨k, hk⟩
        exact nomatch hk
      · rw [hc, List.length_append, List.length_singleton]
        omega
    · simp only [Action.isClientSender, Action.isNextId, if_true, Bool.false_eq_true, if_false]
        at hone hcount
      obtain ⟨hzero, hcs⟩ := eq_singleton_of_getElem? hi (by omega)
      rw [hzero] at hc
      have hcounter : s.counter = current := by simp [counter, hcs]
      have hlt : s.counter < i32Max := by omega
      have hnext : t.counter = IdCounter.next s.counter := by simp [counter, hc, hcs]
      have hadd : t.counter = s.counter + 1 := hnext.trans (if_neg (not_le.mpr hlt))
      refine ih (hs.step hstep ((Int.le_add_one le_rfl).trans hadd.ge) ?_) ?_ (by omega)
      · intro i c id _ hi hid
        obtain ⟨-, hcs'⟩ := eq_singleton_of_getElem? hi (by omega)
        cases hcs.symm.trans hcs'
        rw [hnext]
        exact nextId_new (hcounter ▸ hid) hlt
      · rw [hc, List.length_set]
        omega
    · have hcounter : t.counter = s.counter := by simp [counter, hc]
      refine ih (hs.step hstep hcounter.ge ?_) ?_ (by omega)
      · rintro - - - ⟨k, hk⟩
        exact absurd hk (ha k)
      · rw [hc]
        omega

end OneCounter

end LspServerTokio.System
