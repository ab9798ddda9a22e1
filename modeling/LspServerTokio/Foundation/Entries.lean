import Mathlib.Order.Lattice
import Mathlib.Data.List.Pairwise
import Mathlib.Data.List.Induction
import Mathlib.Tactic.SplitIfs

namespace LspServerTokio.Foundation.Entries

variable {κ ν : Type} [LinearOrder κ]

/-- Entries in strictly increasing order of their keys. -/
def Sorted (m : List (κ × ν)) : Prop := m.Pairwise fun p q ↦ p.1 < q.1

instance (m : List (κ × ν)) : Decidable (Sorted m) := inferInstanceAs (Decidable (List.Pairwise _ m))

def insert (k : κ) (v : ν) : List (κ × ν) → List (κ × ν)
  | [] => [(k, v)]
  | (j, w) :: m =>
    if k < j then (k, v) :: (j, w) :: m
    else if k = j then (k, v) :: m
    else (j, w) :: insert k v m

def get (m : List (κ × ν)) (k : κ) : Option ν := m.lookup k

/-- The map built by inserting entries in the order given. -/
def collect (xs : List (κ × ν)) : List (κ × ν) := xs.foldl (fun m p ↦ insert p.1 p.2 m) []

@[simp] theorem get_nil (k : κ) : get ([] : List (κ × ν)) k = none := rfl

theorem get_cons (k j : κ) (w : ν) (m : List (κ × ν)) :
    get ((j, w) :: m) k = if k = j then some w else get m k := by
  by_cases h : k = j
  · simp [get, h]
  · simp [get, List.lookup_cons, h, beq_eq_false_iff_ne.mpr h]

theorem get_map_value {ρ : Type} (f : ν → ρ) (m : List (κ × ν)) (k : κ) :
    (get m k).map f = get (m.map fun p ↦ (p.1, f p.2)) k := by
  induction m with
  | nil => rfl
  | cons p m ih =>
    rw [List.map_cons, get_cons, get_cons, ← ih]
    split_ifs <;> rfl

theorem get_eq_head? (m : List (κ × ν)) (k : κ) :
    get m k = (m.filter (·.1 = k)).head?.map Prod.snd := by
  induction m with
  | nil => rfl
  | cons p m ih =>
    obtain ⟨j, w⟩ := p
    rw [get_cons, List.filter_cons]
    by_cases h : k = j
    · simp [h]
    · simp [h, Ne.symm h, ih]

theorem get_reverse {m : List (κ × ν)} {k : κ} (h : (m.filter (·.1 = k)).length ≤ 1) :
    get m.reverse k = get m k := by
  rw [get_eq_head?, get_eq_head?, List.filter_reverse]
  generalize m.filter (·.1 = k) = l at h ⊢
  rcases l with _ | ⟨p, _ | ⟨q, l⟩⟩
  · rfl
  · rfl
  · simp at h

theorem get_insert (k j : κ) (v : ν) (m : List (κ × ν)) :
    get (insert k v m) j = if j = k then some v else get m j := by
  induction m with
  | nil => simp [insert, get_cons]
  | cons p m ih =>
    obtain ⟨i, w⟩ := p
    simp only [insert]
    by_cases hlt : k < i
    · rw [if_pos hlt, get_cons]
    · by_cases heq : k = i
      · rw [if_neg hlt, if_pos heq, get_cons, get_cons, heq]
        split_ifs <;> rfl
      · rw [if_neg hlt, if_neg heq, get_cons, get_cons, ih]
        by_cases hjk : j = k
        · simp [hjk, heq]
        · simp [hjk]

theorem mem_insert {k : κ} {v : ν} {m : List (κ × ν)} {p : κ × ν}
    (h : p ∈ insert k v m) : p = (k, v) ∨ p ∈ m := by
  induction m with
  | nil => simpa [insert] using h
  | cons q m ih =>
    simp only [insert] at h
    split_ifs at h with hlt heq
    · simpa using h
    · rcases List.mem_cons.mp h with h | h
      · exact .inl h
      · exact .inr (List.mem_cons_of_mem _ h)
    · rcases List.mem_cons.mp h with rfl | h
      · exact .inr List.mem_cons_self
      · exact (ih h).imp id (List.mem_cons_of_mem _)

theorem sorted_insert (k : κ) (v : ν) {m : List (κ × ν)} (h : Sorted m) :
    Sorted (insert k v m) := by
  induction m with
  | nil => simp [insert, Sorted]
  | cons q m ih =>
    obtain ⟨hq, hm⟩ := List.pairwise_cons.mp h
    simp only [insert]
    split_ifs with hlt heq
    · refine List.pairwise_cons.mpr ⟨fun p hp ↦ ?_, h⟩
      rcases List.mem_cons.mp hp with rfl | hp
      · exact hlt
      · exact hlt.trans (hq p hp)
    · exact List.pairwise_cons.mpr ⟨fun p hp ↦ heq ▸ hq p hp, hm⟩
    · refine List.pairwise_cons.mpr ⟨fun p hp ↦ ?_, ih hm⟩
      rcases mem_insert hp with rfl | hp
      · exact lt_of_le_of_ne (not_lt.mp hlt) (Ne.symm heq)
      · exact hq p hp

theorem insert_of_lt {k : κ} {v : ν} {m : List (κ × ν)} (h : ∀ p ∈ m, p.1 < k) :
    insert k v m = m ++ [(k, v)] := by
  induction m with
  | nil => rfl
  | cons q m ih =>
    have hq := h q List.mem_cons_self
    simp only [insert, hq.not_gt, hq.ne', if_false, List.cons_append,
      ih fun p hp ↦ h p (List.mem_cons_of_mem _ hp)]

theorem sorted_collect (xs : List (κ × ν)) : Sorted (collect xs) := by
  suffices h : ∀ m, Sorted m → Sorted (xs.foldl (fun m p ↦ insert p.1 p.2 m) m) from
    h [] List.Pairwise.nil
  induction xs with
  | nil => exact fun m hm ↦ hm
  | cons p xs ih => exact fun m hm ↦ ih _ (sorted_insert p.1 p.2 hm)

/-- Of several entries with one key the last one stays. -/
theorem get_collect (xs : List (κ × ν)) (k : κ) : get (collect xs) k = get xs.reverse k := by
  induction xs using List.reverseRecOn with
  | nil => rfl
  | append_singleton xs p ih =>
    obtain ⟨j, w⟩ := p
    simp only [collect, List.foldl_append, List.foldl_cons, List.foldl_nil, List.reverse_append,
      List.reverse_cons, List.reverse_nil, List.nil_append, List.singleton_append] at ih ⊢
    rw [get_insert, get_cons, ih]

theorem collect_of_sorted {m : List (κ × ν)} (h : Sorted m) : collect m = m := by
  induction m using List.reverseRecOn with
  | nil => rfl
  | append_singleton m p ih =>
    obtain ⟨hm, -, hlt⟩ := List.pairwise_append.mp h
    have hc := ih hm
    simp only [collect, List.foldl_append, List.foldl_cons, List.foldl_nil] at hc ⊢
    rw [hc]
    exact insert_of_lt fun q hq ↦ hlt q hq p (List.mem_singleton_self p)

theorem length_filter_le_one {m : List (κ × ν)} (h : Sorted m) (k : κ) :
    (m.filter (·.1 = k)).length ≤ 1 := by
  induction m with
  | nil => simp
  | cons p m ih =>
    obtain ⟨hp, hm⟩ := List.pairwise_cons.mp h
    rw [List.filter_cons]
    split_ifs with hk
    · have hnil : m.filter (·.1 = k) = [] := by
        rw [List.filter_eq_nil_iff]
        intro q hq
        have hlt := hp q hq
        simp only [decide_eq_true_eq] at hk ⊢
        exact fun he ↦ hlt.ne (hk.trans he.symm)
      simp [hnil]
    · exact ih hm

theorem mem_collect {xs : List (κ × ν)} {p : κ × ν} (h : p ∈ collect xs) : p ∈ xs := by
  induction xs using List.reverseRecOn with
  | nil => exact h
  | append_singleton xs q ih =>
    simp only [collect, List.foldl_append, List.foldl_cons, List.foldl_nil] at ih h
    rcases mem_insert h with rfl | h
    · exact List.mem_append_right _ (List.mem_singleton_self _)
    · exact List.mem_append_left _ (ih h)

end LspServerTokio.Foundation.Entries
