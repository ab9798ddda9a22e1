import LspServerTokio.Slots

namespace LspServerTokio.System

open Foundation

variable {s s' : System}

/-- The entries of the response map are those of the calls that have registered and whose response
has not been delivered, and no sender of an entry has been used or dropped. -/
structure SlotsExact (s : System) : Prop where
  exact : ∀ id k, s.responseMap.pending id = some k ↔ s.Holds k id ∧ ∀ reply, s.oneshot k ≠ .sent reply
  waiting : ∀ id k, s.responseMap.pending id = some k → s.oneshot k = .waiting

/-- A call is dropped after its response was delivered and before it was polled again, and by then
its id has been registered a second time. -/
def DropsDelivered (s : System) (a : Action) : Prop :=
  ∃ k id reply, s.dropped a = some (k, id) ∧ s.oneshot k = .sent reply ∧
    s.responseMap.contains id = true

theorem contains_eq_true {m : ResponseMap ℕ} {id : RequestId} :
    m.contains id = true ↔ ∃ k, m.pending id = some k := Option.isSome_iff_exists

theorem not_dropsDelivered {a : Action} (h : s.dropped a = none) : ¬ s.DropsDelivered a := by
  intro hall
  obtain ⟨k, id, reply, hd, -⟩ := hall
  rw [h] at hd
  exact nomatch hd

theorem numbered_init : init.Numbered := fun _ _ ↦ rfl

theorem entriesWait_init : init.EntriesWait := fun _ _ h ↦ (by cases h)

/-- Every call that holds an id and has not been delivered a response has its entry. -/
def Covered (s : System) : Prop :=
  ∀ id k, s.Holds k id → (∀ reply, s.oneshot k ≠ .sent reply) → s.responseMap.pending id = some k

theorem slotsExact_iff_covered (hs : s.EntriesWait) : SlotsExact s ↔ s.Covered := by
  constructor
  · exact fun h id k hk hsent ↦ (h.exact id k).mpr ⟨hk, hsent⟩
  · intro h
    refine ⟨fun id k ↦ ⟨fun hm ↦ ?_, fun hk ↦ h id k hk.1 hk.2⟩, fun id k hm ↦ (hs id k hm).2⟩
    obtain ⟨hk, hw⟩ := hs id k hm
    exact ⟨hk, by simp [hw]⟩

namespace Covered

theorem init : init.Covered := by
  intro id k hk
  rcases hk with h | h <;> cases h

theorem congr (h : s.Covered) (hholds : ∀ j i, s'.Holds j i ↔ s.Holds j i)
    (hone : s'.oneshot = s.oneshot) (hmap : s'.responseMap = s.responseMap) : s'.Covered := by
  intro i j hj hsent
  rw [hmap]
  exact h i j ((hholds j i).mp hj) (hone ▸ hsent)

section Change

variable {k : ℕ} {id : RequestId}

theorem register (h : s.Covered) (hfree : s.responseMap.pending id = none)
    (hholds : ∀ j i, s'.Holds j i ↔ j = k ∧ i = id ∨ j ≠ k ∧ s.Holds j i)
    (hone : s'.oneshot = fun j ↦ if j = k then .waiting else s.oneshot j)
    (hmap : s'.responseMap.pending = s.responseMap.pending.insert id k) : s'.Covered := by
  intro i j hj hsent
  rw [hmap, Table.insert_eq_some]
  rcases (hholds j i).mp hj with ⟨rfl, rfl⟩ | ⟨hne, hj⟩
  · exact .inl ⟨rfl, rfl⟩
  · rw [hone] at hsent
    have hi := h i j hj fun reply ho ↦ hsent reply ((if_neg hne).trans ho)
    refine .inr ⟨?_, hi⟩
    rintro rfl
    rw [hi] at hfree
    cases hfree

theorem receive (h : s.Covered) (hholds : ∀ j i, s'.Holds j i ↔ j ≠ k ∧ s.Holds j i)
    (hone : s'.oneshot = s.oneshot) (hmap : s'.responseMap = s.responseMap) : s'.Covered := by
  intro i j hj hsent
  rw [hmap]
  exact h i j ((hholds j i).mp hj).2 (hone ▸ hsent)

theorem deliver (h : s.Covered) (hs : s.EntriesWait) {reply : Reply}
    (hm : s.responseMap.pending id = some k) (hholds : ∀ j i, s'.Holds j i ↔ s.Holds j i)
    (hone : s'.oneshot = fun j ↦ if j = k then (s.oneshot j).send reply else s.oneshot j)
    (hmap : s'.responseMap.pending = s.responseMap.pending.remove id) : s'.Covered := by
  intro i j hj hsent
  rw [hone] at hsent
  have hne : j ≠ k := by
    rintro rfl
    refine hsent reply ((if_pos rfl).trans ?_)
    rw [(hs id j hm).2]
    rfl
  have hi := h i j ((hholds j i).mp hj) fun reply ho ↦ hsent reply ((if_neg hne).trans ho)
  rw [hmap, Table.remove_eq_some]
  refine ⟨?_, hi⟩
  rintro rfl
  exact hne (Option.some.inj (hi.symm.trans hm))

/-- A call that is dropped takes its own entry along, if it still has one. -/
theorem drop (h : s.Covered) (hown : ∀ j, s.responseMap.pending id = some j → j = k)
    (hholds : ∀ j i, s'.Holds j i ↔ j ≠ k ∧ s.Holds j i)
    (hone : s'.oneshot = fun j ↦
      if s.responseMap.pending id = some j then (s.oneshot j).drop else s.oneshot j)
    (hmap : s'.responseMap.pending = s.responseMap.pending.remove id) : s'.Covered := by
  intro i j hj hsent
  obtain ⟨hne, hj⟩ := (hholds j i).mp hj
  rw [hone] at hsent
  have hi := h i j hj fun reply ho ↦ hsent reply ((if_neg fun he ↦ hne (hown j he)).trans ho)
  rw [hmap, Table.remove_eq_some]
  refine ⟨?_, hi⟩
  rintro rfl
  exact hne (hown j hi)

/-- If the entry belongs to another call by then, that call loses it. -/
theorem not_of_drop (hs : s.EntriesWait) {j : ℕ} (hj : s.responseMap.pending id = some j) (hne : j ≠ k)
    (hholds : ∀ j i, s'.Holds j i ↔ j ≠ k ∧ s.Holds j i)
    (hone : s'.oneshot = fun j ↦
      if s.responseMap.pending id = some j then (s.oneshot j).drop else s.oneshot j)
    (hmap : s'.responseMap.pending = s.responseMap.pending.remove id) : ¬ s'.Covered := by
  intro h
  obtain ⟨hheld, hw⟩ := hs id j hj
  have hdropped : s'.oneshot j = .dropped := by
    rw [hone]
    simp only [hj, if_true, hw, Oneshot.drop]
  have hentry := h id j ((hholds j id).mpr ⟨hne, hheld⟩) (by simp [hdropped])
  rw [hmap, Table.remove_self] at hentry
  cases hentry

end Change

/-- An action keeps every call covered, unless it drops a call whose id has changed hands. -/
theorem step_iff {a : Action} (h : s.Covered) (hs : s.EntriesWait) (hn : s.Numbered)
    (hstep : Step s a s') : s'.Covered ↔ ¬ s.DropsDelivered a := by
  cases slotEffect hn hstep with
  | keep ha hholds hone hmap =>
    exact iff_of_true (h.congr hholds hone hmap) (not_dropsDelivered ha)
  | register ha hp hm hholds hone hmap =>
    exact iff_of_true (h.register hm hholds hone hmap) (not_dropsDelivered (ha ▸ rfl))
  | receive ha hk ho hholds hone hmap =>
    exact iff_of_true (h.receive hholds hone hmap) (not_dropsDelivered ha)
  | deliver ha hr hm hholds hone hmap =>
    exact iff_of_true (h.deliver hs hm hholds hone hmap) (not_dropsDelivered (ha ▸ rfl))
  | @drop k id ha hk hholds hone hmap =>
    by_cases hown : ∀ j, s.responseMap.pending id = some j → j = k
    · refine iff_of_true (h.drop hown hholds hone hmap) ?_
      rintro ⟨k', id', reply, hd, ho, hc⟩
      cases ha.symm.trans hd
      obtain ⟨j, hj⟩ := contains_eq_true.mp hc
      cases hown j hj
      rw [(hs _ _ hj).2] at ho
      cases ho
    · push Not at hown
      obtain ⟨j, hj, hne⟩ := hown
      refine iff_of_false (not_of_drop hs hj hne hholds hone hmap) (not_not.mpr ?_)
      by_contra hnot
      refine hne (Option.some.inj (hj.symm.trans (h id k hk fun reply ho ↦ ?_)))
      exact hnot ⟨k, id, reply, ha, ho, contains_eq_true.mpr ⟨j, hj⟩⟩

end Covered

/-- All along a run the entries of the response map are exact if and only if the run never drops a
call, after its response was delivered, when its id has been registered again. -/
theorem slots_exact_iff (actions : List Action) :
    Always step SlotsExact init actions ↔ Each step (¬ DropsDelivered · ·) init actions := by
  refine always_iff_each (I := fun s ↦ s.Numbered ∧ s.EntriesWait) ?_ ?_
    ⟨numbered_init, entriesWait_init⟩ ((slotsExact_iff_covered entriesWait_init).mpr Covered.init)
  · intro s a s' hs h
    have hstep := step_of_eq_some h
    exact ⟨numbered_step hs.1 hstep, hs.2.step hs.1 hstep⟩
  · intro s a s' hs hexact h
    have hstep := step_of_eq_some h
    rw [slotsExact_iff_covered (hs.2.step hs.1 hstep)]
    exact ((slotsExact_iff_covered hs.2).mp hexact).step_iff hs.2 hs.1 hstep

/-- Two handles from the same connection count from 1. The first request is answered, and is dropped
before it is polled again, when the second one has registered the same id. -/
def reusedIdRun : List Action :=
  [.clientSender, .clientSender,
    .request 0, .nextId 0, .tryRegister 0, .enqueue 0, .drainRecv, .drainWrite .ok,
    .peerAnswer 0 (.success .null), .routeBegin 0, .routeContains, .routeDeliver,
    .request 1, .nextId 1, .tryRegister 1, .enqueue 1,
    .abort 0]

theorem slots_not_exact : ∃ s, run step init reusedIdRun = some s ∧
    s.Holds 1 firstId ∧ s.responseMap.pending firstId = none ∧ s.oneshot 1 = .dropped ∧
    ¬ Always step SlotsExact init reusedIdRun := by
  refine ⟨_, rfl, .inr rfl, rfl, rfl, fun h ↦ ?_⟩
  have hs := h reusedIdRun [] _ (List.append_nil _).symm rfl
  exact nomatch (hs.exact firstId 1).mpr ⟨.inr rfl, fun _ ho ↦ nomatch ho⟩

end LspServerTokio.System
