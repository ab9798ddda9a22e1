import Mathlib.Algebra.Order.Ring.Int
import Mathlib.Data.Int.ModEq
import Mathlib.Tactic.Common

namespace LspServerTokio.Foundation.Cycle

/-- Counting from 1 to `m` and round to 1 again. -/
def next (m c : ℤ) : ℤ := if c ≥ m then 1 else c + 1

/-- The number that is reached from `c` in `i` steps. -/
def after (m c : ℤ) (i : ℕ) : ℤ := (c - 1 + i) % m + 1

variable {m c : ℤ} {i j : ℕ}

theorem after_mem (hm : 0 < m) (c : ℤ) (i : ℕ) : 1 ≤ after m c i ∧ after m c i ≤ m := by
  have hnonneg := Int.emod_nonneg (c - 1 + i) hm.ne'
  have hlt := Int.emod_lt_of_pos (c - 1 + i) hm
  unfold after
  omega

theorem after_zero (hpos : 1 ≤ c) (hle : c ≤ m) : after m c 0 = c := by
  rw [after, Int.natCast_zero, add_zero, Int.emod_eq_of_lt (by omega) (by omega), sub_add_cancel]

theorem after_after (c : ℤ) (i j : ℕ) : after m (after m c i) j = after m c (i + j) := by
  rw [after, after, after, add_sub_cancel_right, Int.emod_add_emod, Nat.cast_add, add_assoc]

theorem next_after (hm : 0 < m) (c : ℤ) (i : ℕ) : next m (after m c i) = after m c (i + 1) := by
  obtain ⟨hpos, hle⟩ := after_mem hm c i
  rw [← after_after]
  generalize after m c i = n at hpos hle
  unfold next after
  rw [Int.natCast_one, sub_add_cancel]
  split_ifs with h
  · rw [le_antisymm hle h, Int.emod_self, zero_add]
  · rw [Int.emod_eq_of_lt (by omega) (by omega)]

theorem next_eq (hpos : 1 ≤ c) (hle : c ≤ m) : next m c = after m c 1 := by
  have h := next_after (by omega : 0 < m) c 0
  rwa [after_zero hpos hle] at h

theorem after_eq_after : after m c i = after m c j ↔ m ∣ (j : ℤ) - i := by
  unfold after
  rw [add_left_inj, ← Int.ModEq, Int.modEq_iff_dvd, add_sub_add_left_eq_sub]

/-- No number comes again before all `m` have come. -/
theorem after_ne_after (hij : i < j) (hj : (j : ℤ) < i + m) : after m c i ≠ after m c j := by
  rw [ne_eq, after_eq_after]
  intro h
  have hle := Int.le_of_dvd (by omega) h
  omega

theorem exists_after_eq {n : ℤ} (hpos : 1 ≤ n) (hle : n ≤ m) (c : ℤ) (i : ℕ) :
    ∃ j, i ≤ j ∧ (j : ℤ) < i + m ∧ after m c j = n := by
  have hm : 0 < m := by omega
  have hnonneg := Int.emod_nonneg (n - 1 - (c - 1 + i)) hm.ne'
  have hlt := Int.emod_lt_of_pos (n - 1 - (c - 1 + i)) hm
  refine ⟨i + ((n - 1 - (c - 1 + i)) % m).toNat, Nat.le_add_right _ _, ?_, ?_⟩
  · rw [Nat.cast_add, Int.toNat_of_nonneg hnonneg]
    omega
  · rw [after, Nat.cast_add, Int.toNat_of_nonneg hnonneg, ← add_assoc, Int.add_emod_emod,
      add_sub_cancel, Int.emod_eq_of_lt (by omega) (by omega), sub_add_cancel]

end LspServerTokio.Foundation.Cycle
