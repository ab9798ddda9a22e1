import Mathlib.Algebra.BigOperators.Group.Finset.Basic
import Mathlib.Tactic.Common

namespace LspServerTokio.Foundation

def Table (κ ν : Type) := κ → Option ν

namespace Table

variable {κ ν : Type}

def empty : Table κ ν := fun _ ↦ none

@[simp] theorem empty_apply (k : κ) : (empty : Table κ ν) k = none := rfl

variable [DecidableEq κ]

def insert (m : Table κ ν) (k : κ) (v : ν) : Table κ ν := fun j ↦ if j = k then some v else m j

def remove (m : Table κ ν) (k : κ) : Table κ ν := fun j ↦ if j = k then none else m j

@[simp] theorem insert_self (m : Table κ ν) (k : κ) (v : ν) : m.insert k v k = some v := if_pos rfl

@[simp] theorem remove_self (m : Table κ ν) (k : κ) : m.remove k k = none := if_pos rfl

theorem insert_of_ne (m : Table κ ν) {k j : κ} (v : ν) (h : j ≠ k) : m.insert k v j = m j := if_neg h

theorem remove_eq_some {m : Table κ ν} {k j : κ} {v : ν} :
    m.remove k j = some v ↔ j ≠ k ∧ m j = some v := by
  unfold remove
  split_ifs with h <;> simp [h]

theorem insert_eq_some {m : Table κ ν} {k j : κ} {v w : ν} :
    m.insert k v j = some w ↔ j = k ∧ v = w ∨ j ≠ k ∧ m j = some w := by
  unfold insert
  split_ifs with h <;> simp [h]

/-- One entry of a sum over a table changes. -/
theorem sum_insert {m : Table κ ν} {f : ν → ℕ} {keys : Finset κ} {i : κ} {v : ν} (hi : i ∈ keys)
    (hv : m i = some v) (w : ν) :
    ∑ j ∈ keys, (m.insert i w j).elim 0 f + f v = ∑ j ∈ keys, (m j).elim 0 f + f w := by
  have hrest : ∑ j ∈ keys.erase i, (m.insert i w j).elim 0 f = ∑ j ∈ keys.erase i, (m j).elim 0 f := by
    refine Finset.sum_congr rfl fun j hj ↦ ?_
    rw [insert_of_ne _ _ (Finset.ne_of_mem_erase hj)]
  rw [← Finset.add_sum_erase _ _ hi, ← Finset.add_sum_erase keys (fun j ↦ (m j).elim 0 f) hi, hrest,
    insert_self, hv, Option.elim_some, Option.elim_some]
  omega

end Table

end LspServerTokio.Foundation
