import LspServerTokio.Foundation.Cycle
import LspServerTokio.ClientSender
import Mathlib.Data.Set.Card

namespace LspServerTokio

open Foundation

/-- The id that comes `i` steps behind the one `c` stands for. -/
def cyclicId (c : IdCounter) (i : ℕ) : RequestId :=
  .integer ⟨Cycle.after i32Max c i, by
    have h := Cycle.after_mem (by decide : 0 < i32Max) c i
    simp only [i32Max] at h ⊢
    omega⟩

section CyclicId

variable {c : IdCounter} {i j : ℕ}

theorem nextId_eq_cyclicId (hpos : 1 ≤ c) (hmax : c ≤ i32Max) : c.nextId = some (cyclicId c 0) := by
  rw [IdCounter.nextId, cyclicId, Option.map_eq_some_iff]
  exact ⟨_, I32.tryFrom_eq_some.mpr (Cycle.after_zero hpos hmax).symm, rfl⟩

theorem next_eq_after (hpos : 1 ≤ c) (hmax : c ≤ i32Max) : c.next = Cycle.after i32Max c 1 :=
  Cycle.next_eq hpos hmax

theorem next_mem (c : IdCounter) (hpos : 1 ≤ c) (hmax : c ≤ i32Max) :
    1 ≤ c.next ∧ c.next ≤ i32Max := by
  rw [next_eq_after hpos hmax]
  exact Cycle.after_mem (by decide) c 1

theorem cyclicId_after (c : IdCounter) (i j : ℕ) :
    cyclicId (Cycle.after i32Max c i) j = cyclicId c (i + j) := by
  simp only [cyclicId, Cycle.after_after]

theorem cyclicId_ne (hij : i < j) (hj : (j : ℤ) < i + i32Max) : cyclicId c i ≠ cyclicId c j := by
  intro h
  exact Cycle.after_ne_after hij hj (congrArg Subtype.val (RequestId.integer.inj h))

end CyclicId

namespace ClientSender

variable {ω : Type} {s : ClientSender ω}

theorem nextId_eq_ok {s' : ClientSender ω} {id : RequestId} :
    s.nextId = .ok (id, s') ↔
      s.idCounter.nextId = some id ∧ { s with idCounter := s.idCounter.next } = s' := by
  simp only [nextId, fetchUpdate, IdCounter.nextId]
  cases I32.tryFrom s.idCounter <;> simp

theorem nextId_eq (hpos : 1 ≤ s.idCounter) (hmax : s.idCounter ≤ i32Max) :
    s.nextId = .ok (cyclicId s.idCounter 0, { s with idCounter := s.idCounter.next }) :=
  nextId_eq_ok.mpr ⟨nextId_eq_cyclicId hpos hmax, rfl⟩

/-- How the loop ends: at the first id in the cycle that is free, or with all the ids that it may
try pending and nothing changed but the counter. -/
theorem reserveLoop_eq (tx : ω) (attempts : ℕ) (hpos : 1 ≤ s.idCounter)
    (hmax : s.idCounter ≤ i32Max) :
    (∃ i < attempts, s.responseMap.pending (cyclicId s.idCounter i) = none ∧
      (∀ j < i, (s.responseMap.pending (cyclicId s.idCounter j)).isSome) ∧
      reserveLoop tx attempts s = .ok (.ok (cyclicId s.idCounter i),
        ⟨⟨s.responseMap.pending.insert (cyclicId s.idCounter i) tx⟩,
          Cycle.after i32Max s.idCounter (i + 1)⟩)) ∨
    ((∀ j < attempts, (s.responseMap.pending (cyclicId s.idCounter j)).isSome) ∧
      reserveLoop tx attempts s = .ok (.error reserveError,
        ⟨s.responseMap, Cycle.after i32Max s.idCounter attempts⟩)) := by
  induction attempts generalizing s with
  | zero =>
    refine .inr ⟨fun j hj ↦ absurd hj (Nat.not_lt_zero j), ?_⟩
    rw [reserveLoop, Cycle.after_zero hpos hmax]
  | succ attempts ih =>
    rw [reserveLoop, nextId_eq hpos hmax]
    rcases hfree : s.responseMap.pending (cyclicId s.idCounter 0) with _ | other
    · refine .inl ⟨0, Nat.succ_pos _, hfree, fun j hj ↦ absurd hj (Nat.not_lt_zero j), ?_⟩
      simp only [ResponseMap.tryRegister, hfree, next_eq_after hpos hmax]
    · -- the first id is taken: the rest of the loop starts one step further round
      have hnext := next_mem s.idCounter hpos hmax
      have ih := ih (s := { s with idCounter := s.idCounter.next }) hnext.1 hnext.2
      have hid : ∀ i, cyclicId s.idCounter.next i = cyclicId s.idCounter (i + 1) := by
        intro i
        rw [next_eq_after hpos hmax, cyclicId_after, Nat.add_comm]
      have hafter : ∀ i, Cycle.after i32Max s.idCounter.next i =
          Cycle.after i32Max s.idCounter (i + 1) := by
        intro i
        rw [next_eq_after hpos hmax, Cycle.after_after, Nat.add_comm]
      have hbefore : ∀ i, (∀ j < i, (s.responseMap.pending (cyclicId s.idCounter (j + 1))).isSome) →
          ∀ j < i + 1, (s.responseMap.pending (cyclicId s.idCounter j)).isSome := by
        intro i h j hj
        cases j with
        | zero => exact Option.isSome_iff_exists.mpr ⟨other, hfree⟩
        | succ j => exact h j (Nat.lt_of_succ_lt_succ hj)
      simp only [ResponseMap.tryRegister, hfree]
      simp only [hid, hafter] at ih
      rcases ih with ⟨i, hi, hnone, hall, hloop⟩ | ⟨hall, hloop⟩
      · exact .inl ⟨i + 1, Nat.succ_lt_succ hi, hnone, hbefore i hall, hloop⟩
      · exact .inr ⟨hbefore attempts hall, hloop⟩

/-- With fewer than 1000 requests pending one of the next 1000 ids is free. -/
theorem exists_free (s : ClientSender ω)
    (h : {id | (s.responseMap.pending id).isSome}.encard < maxRetries) :
    ∃ i < maxRetries, s.responseMap.pending (cyclicId s.idCounter i) = none := by
  by_contra hall
  push Not at hall
  have hsub : cyclicId s.idCounter '' (Finset.range maxRetries : Set ℕ) ⊆
      {id | (s.responseMap.pending id).isSome} := by
    rintro id ⟨i, hi, rfl⟩
    exact Option.isSome_iff_ne_none.mpr (hall i (Finset.mem_range.mp hi))
  have hinj : Set.InjOn (cyclicId s.idCounter) (Finset.range maxRetries : Set ℕ) := by
    intro i hi j hj he
    have hi := Finset.mem_range.mp hi
    have hj := Finset.mem_range.mp hj
    simp only [maxRetries] at hi hj
    by_contra hne
    rcases Nat.lt_or_gt_of_ne hne with hlt | hlt
    · exact cyclicId_ne hlt (by simp only [i32Max]; omega) he
    · exact cyclicId_ne hlt (by simp only [i32Max]; omega) he.symm
  have hcard := Set.encard_le_encard hsub
  rw [hinj.encard_image, Set.encard_coe_eq_coe_finsetCard, Finset.card_range] at hcard
  exact absurd h hcard.not_gt

theorem reserve_first_free (tx : ω) (hpos : 1 ≤ s.idCounter) (hmax : s.idCounter ≤ i32Max) {i : ℕ}
    (hi : i < maxRetries) (hfree : s.responseMap.pending (cyclicId s.idCounter i) = none)
    (hall : ∀ j < i, (s.responseMap.pending (cyclicId s.idCounter j)).isSome) :
    s.reserveRequestSlot tx = .ok (.ok (cyclicId s.idCounter i),
      ⟨⟨s.responseMap.pending.insert (cyclicId s.idCounter i) tx⟩,
        Cycle.after i32Max s.idCounter (i + 1)⟩) := by
  have htaken : ∀ k, (∀ j < k, (s.responseMap.pending (cyclicId s.idCounter j)).isSome) → ¬ i < k := by
    intro k hk hik
    exact Option.isSome_iff_ne_none.mp (hk i hik) hfree
  rcases reserveLoop_eq tx maxRetries hpos hmax with ⟨k, -, hnone, hbefore, hloop⟩ | ⟨hbefore, -⟩
  · obtain rfl | hlt : k = i ∨ k < i := by
      have := htaken k hbefore
      omega
    · exact hloop
    · exact absurd hnone (Option.isSome_iff_ne_none.mp (hall k hlt))
  · exact absurd hi (htaken maxRetries hbefore)

/-- A reservation takes the first free id of the next 1000 in the cycle, or fails with the map as it
was when they are all pending; with fewer than 1000 pending requests it never fails. -/
theorem reserve_exact (s : ClientSender ω) (tx : ω) (hpos : 1 ≤ s.idCounter)
    (hmax : s.idCounter ≤ i32Max) :
    (∀ i < maxRetries, s.responseMap.pending (cyclicId s.idCounter i) = none →
      (∀ j < i, (s.responseMap.pending (cyclicId s.idCounter j)).isSome) →
      s.reserveRequestSlot tx = .ok (.ok (cyclicId s.idCounter i),
        ⟨⟨s.responseMap.pending.insert (cyclicId s.idCounter i) tx⟩,
          Cycle.after i32Max s.idCounter (i + 1)⟩)) ∧
    ((∀ i < maxRetries, (s.responseMap.pending (cyclicId s.idCounter i)).isSome) →
      s.reserveRequestSlot tx = .ok (.error reserveError,
        ⟨s.responseMap, Cycle.after i32Max s.idCounter maxRetries⟩)) ∧
    ({id | (s.responseMap.pending id).isSome}.encard < 1000 →
      ∃ id s', s.reserveRequestSlot tx = .ok (.ok id, s')) := by
  refine ⟨fun i hi hfree hall ↦ reserve_first_free tx hpos hmax hi hfree hall, fun hall ↦ ?_,
    fun hcard ↦ ?_⟩
  · rcases reserveLoop_eq tx maxRetries hpos hmax with ⟨k, hk, hnone, -⟩ | ⟨-, hloop⟩
    · exact absurd hnone (Option.isSome_iff_ne_none.mp (hall k hk))
    · exact hloop
  · rcases reserveLoop_eq tx maxRetries hpos hmax with ⟨k, hk, -, -, hloop⟩ | ⟨hbefore, -⟩
    · exact ⟨_, _, hloop⟩
    · obtain ⟨i, hi, hnone⟩ := exists_free s hcard
      exact absurd hnone (Option.isSome_iff_ne_none.mp (hbefore i hi))

/-- Both the last id and the first one are pending, and the counter stands at the last. -/
theorem reserve_exact_wraparound :
    let s : ClientSender ℕ := ⟨⟨(Table.empty.insert (cyclicId i32Max 0) 5).insert (cyclicId 1 0) 6⟩, i32Max⟩
    s.reserveRequestSlot 7 = .ok (.ok (cyclicId i32Max 2),
      ⟨⟨s.responseMap.pending.insert (cyclicId i32Max 2) 7⟩, 3⟩) :=
  (reserve_exact _ 7 (by decide) (by decide)).1 2 (by decide) (by decide) (by decide)

end ClientSender

end LspServerTokio
