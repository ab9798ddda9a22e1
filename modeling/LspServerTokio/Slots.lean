import LspServerTokio.Foundation.Runs
import LspServerTokio.Steps

namespace LspServerTokio.System

open Foundation

variable {s s' : System}

/-- The call `k` has registered `id` and has not ended. -/
def Holds (s : System) (k : ℕ) (id : RequestId) : Prop :=
  s.phase k = some (.registered id) ∨ s.phase k = some (.waiting id)

theorem Holds.id_unique {k : ℕ} {id id' : RequestId} (h : s.Holds k id) (h' : s.Holds k id') :
    id = id' := by
  rcases h with h | h <;> rcases h' with h' | h' <;> rw [h] at h' <;> cases h' <;> rfl

/-- Calls are numbered in the order in which they start. -/
def Numbered (s : System) : Prop := ∀ k, s.started ≤ k → s.phase k = none

theorem phase_insert_lt {k : ℕ} {p : Phase} {q : Phase} (hn : s.Numbered) (hk : s.phase k = some p) :
    ∀ j, s.started ≤ j → s.phase.insert k q j = none := by
  intro j hj
  have hne : j ≠ k := by
    rintro rfl
    rw [hn j hj] at hk
    exact nomatch hk
  rw [Table.insert_of_ne _ _ hne, hn j hj]

theorem numbered_step {a : Action} (hn : s.Numbered) (h : Step s a s') : s'.Numbered := by
  cases h with
  | request =>
    intro k hk
    have hne : k ≠ s.started := Nat.ne_of_gt hk
    exact (Table.insert_of_ne _ _ hne).trans (hn k (Nat.le_of_succ_le hk))
  | nextId hp | register hp | retry hp | enqueue hp | receive hp => exact phase_insert_lt hn hp
  | drop _ hp => rcases hp with hp | hp <;> exact phase_insert_lt hn hp
  | _ => exact hn

/-- What an action does to the calls that hold an id, to their channels and to the response map. -/
inductive SlotEffect (s : System) (a : Action) (s' : System) : Prop
  | keep : s.dropped a = none → (∀ j i, s'.Holds j i ↔ s.Holds j i) → s'.oneshot = s.oneshot →
      s'.responseMap = s.responseMap → SlotEffect s a s'
  | register {k : ℕ} {id : RequestId} : a = .tryRegister k →
      (∃ attempt, s.phase k = some (.generated attempt id)) → s.responseMap.pending id = none →
      (∀ j i, s'.Holds j i ↔ j = k ∧ i = id ∨ j ≠ k ∧ s.Holds j i) →
      (s'.oneshot = fun j ↦ if j = k then .waiting else s.oneshot j) →
      s'.responseMap.pending = s.responseMap.pending.insert id k → SlotEffect s a s'
  | receive {k : ℕ} {id : RequestId} {reply : Reply} : s.dropped a = none → s.Holds k id →
      s.oneshot k = .sent reply →
      (∀ j i, s'.Holds j i ↔ j ≠ k ∧ s.Holds j i) → s'.oneshot = s.oneshot →
      s'.responseMap = s.responseMap → SlotEffect s a s'
  | drop {k : ℕ} {id : RequestId} : s.dropped a = some (k, id) → s.Holds k id →
      (∀ j i, s'.Holds j i ↔ j ≠ k ∧ s.Holds j i) →
      (s'.oneshot = fun j ↦
        if s.responseMap.pending id = some j then (s.oneshot j).drop else s.oneshot j) →
      s'.responseMap.pending = s.responseMap.pending.remove id → SlotEffect s a s'
  | deliver {k : ℕ} {id : RequestId} {reply : Reply} : a = .routeDeliver →
      s.routing = some ⟨reply, id, .deliver⟩ → s.responseMap.pending id = some k →
      (∀ j i, s'.Holds j i ↔ s.Holds j i) →
      (s'.oneshot = fun j ↦ if j = k then (s.oneshot j).send reply else s.oneshot j) →
      s'.responseMap.pending = s.responseMap.pending.remove id → SlotEffect s a s'

theorem holds_insert {k : ℕ} {p : Phase} (hphase : s'.phase = s.phase.insert k p) (j : ℕ)
    (i : RequestId) :
    s'.Holds j i ↔ j = k ∧ (p = .registered i ∨ p = .waiting i) ∨ j ≠ k ∧ s.Holds j i := by
  simp only [Holds, hphase, Table.insert_eq_some, and_or_left]
  exact or_or_or_comm

theorem holds_insert_keep {k : ℕ} {p : Phase} (hphase : s'.phase = s.phase.insert k p)
    (hk : ∀ i, ¬ s.Holds k i) (hp : ∀ i, p ≠ .registered i ∧ p ≠ .waiting i) (j : ℕ)
    (i : RequestId) : s'.Holds j i ↔ s.Holds j i := by
  rw [holds_insert hphase]
  have := hp i
  constructor
  · intro hall
    rcases hall with ⟨-, h | h⟩ | ⟨-, h⟩
    · exact absurd h this.1
    · exact absurd h this.2
    · exact h
  · refine fun h ↦ .inr ⟨?_, h⟩
    rintro rfl
    exact hk i h

theorem holds_insert_drop {k : ℕ} {p : Phase} (hphase : s'.phase = s.phase.insert k p)
    (hp : ∀ i, p ≠ .registered i ∧ p ≠ .waiting i) (j : ℕ) (i : RequestId) :
    s'.Holds j i ↔ j ≠ k ∧ s.Holds j i := by
  rw [holds_insert hphase, or_iff_right]
  intro hall
  obtain ⟨-, h | h⟩ := hall
  · exact (hp i).1 h
  · exact (hp i).2 h

theorem not_holds {k : ℕ} {p : Phase} (hk : s.phase k = some p)
    (hp : ∀ i, p ≠ .registered i ∧ p ≠ .waiting i) (i : RequestId) : ¬ s.Holds k i := by
  rintro (h | h) <;> rw [hk, Option.some.injEq] at h
  · exact (hp i).1 h
  · exact (hp i).2 h

theorem slotEffect {a : Action} (hn : s.Numbered) (h : Step s a s') : SlotEffect s a s' := by
  cases h with
  | request =>
    refine .keep rfl (holds_insert_keep rfl (fun i hi ↦ ?_) (by simp)) rfl rfl
    rcases hi with hi | hi <;> rw [hn _ le_rfl] at hi <;> exact nomatch hi
  | nextId hp =>
    exact .keep rfl (holds_insert_keep rfl (not_holds hp (by simp)) (by simp)) rfl rfl
  | register hp hm =>
    refine .register rfl ⟨_, hp⟩ hm (fun j i ↦ ?_) rfl rfl
    rw [holds_insert rfl]
    simp [eq_comm]
  | retry hp _ hnext =>
    refine .keep rfl (holds_insert_keep rfl (not_holds hp (by simp)) ?_) rfl rfl
    rcases hnext with rfl | rfl <;> simp
  | @enqueue k id hp hd =>
    refine .keep (by simp [dropped, hp, hd]) (fun j i ↦ ?_) rfl rfl
    rw [holds_insert rfl]
    by_cases hj : j = k
    · subst hj
      simp [Holds, hp, eq_comm]
    · simp [hj]
  | receive hp ho =>
    exact .receive (by simp [dropped, hp, ho]) (.inr hp) ho (holds_insert_drop rfl (by simp)) rfl rfl
  | drop ha hp => exact .drop ha hp (holds_insert_drop rfl (by simp)) rfl rfl
  | routeDeliver hr hm => exact .deliver rfl hr hm (fun _ _ ↦ Iff.rfl) rfl rfl
  | send ha => rcases ha with rfl | ⟨id, rfl⟩ <;> exact .keep rfl (fun _ _ ↦ Iff.rfl) rfl rfl
  | _ => exact .keep rfl (fun _ _ ↦ Iff.rfl) rfl rfl

/-- A channel has its reply from before, or from the delivery that this action is. -/
theorem sent_step {a : Action} (hn : s.Numbered) (h : Step s a s') {k : ℕ} {reply : Reply}
    (ho : s'.oneshot k = .sent reply) : s.oneshot k = .sent reply ∨
      ∃ id, s.routing = some ⟨reply, id, .deliver⟩ ∧ s.responseMap.pending id = some k := by
  cases slotEffect hn h with
  | keep _ _ hone | receive _ _ _ _ hone => exact .inl (hone ▸ ho)
  | register _ _ _ _ hone =>
    rw [hone] at ho
    dsimp only at ho
    split_ifs at ho
    exact .inl ho
  | drop _ _ _ hone =>
    rw [hone] at ho
    dsimp only at ho
    split_ifs at ho
    · exact .inl (Oneshot.sent_of_drop ho)
    · exact .inl ho
  | deliver _ hr hm _ hone =>
    rw [hone] at ho
    dsimp only at ho
    split_ifs at ho with hk
    · rcases Oneshot.sent_of_send ho with ho | rfl
      · exact .inl ho
      · exact .inr ⟨_, hr, hk ▸ hm⟩
    · exact .inl ho

/-- Whoever has an entry in the response map holds its id and waits. -/
def EntriesWait (s : System) : Prop :=
  ∀ id k, s.responseMap.pending id = some k → s.Holds k id ∧ s.oneshot k = .waiting

theorem EntriesWait.step {a : Action} (hs : s.EntriesWait) (hn : s.Numbered) (h : Step s a s') :
    s'.EntriesWait := by
  intro id k hm
  cases slotEffect hn h with
  | keep _ hholds hone hmap =>
    rw [hholds, hone]
    exact hs id k (hmap ▸ hm)
  | @register i _ _ hp _ hholds hone hmap =>
    rw [hmap, Table.insert_eq_some] at hm
    rw [hholds, hone]
    rcases hm with ⟨rfl, rfl⟩ | ⟨-, hm⟩
    · exact ⟨.inl ⟨rfl, rfl⟩, if_pos rfl⟩
    · obtain ⟨hk, hw⟩ := hs id k hm
      obtain ⟨attempt, hp⟩ := hp
      have hne : k ≠ i := by
        rintro rfl
        exact not_holds hp (by simp) id hk
      exact ⟨.inr ⟨hne, hk⟩, (if_neg hne).trans hw⟩
  | receive _ _ ho hholds hone hmap =>
    obtain ⟨hk, hw⟩ := hs id k (hmap ▸ hm)
    rw [hholds, hone]
    refine ⟨⟨?_, hk⟩, hw⟩
    rintro rfl
    exact nomatch ho.symm.trans hw
  | drop _ hheld hholds hone hmap =>
    rw [hmap, Table.remove_eq_some] at hm
    obtain ⟨hk, hw⟩ := hs id k hm.2
    rw [hholds, hone]
    refine ⟨⟨?_, hk⟩, (if_neg fun he ↦ ?_).trans hw⟩
    · rintro rfl
      exact hm.1 (hk.id_unique hheld)
    · exact hm.1 (hk.id_unique (hs _ _ he).1)
  | deliver _ _ hentry hholds hone hmap =>
    rw [hmap, Table.remove_eq_some] at hm
    obtain ⟨hk, hw⟩ := hs id k hm.2
    rw [hholds, hone]
    refine ⟨hk, (if_neg ?_).trans hw⟩
    rintro rfl
    exact hm.1 (hk.id_unique (hs _ _ hentry).1)

end LspServerTokio.System
