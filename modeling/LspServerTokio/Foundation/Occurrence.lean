import Mathlib.Data.List.Infix

namespace LspServerTokio.Foundation.Occurrence

variable {α : Type}

def windows (n : ℕ) (xs : List α) : List (List α) :=
  (List.range (xs.length + 1 - n)).map fun i ↦ (xs.drop i).take n

/-- `needle` starts at index `i` of `xs` and at no earlier index. -/
structure First (needle xs : List α) (i : ℕ) : Prop where
  here : needle <+: xs.drop i
  earlier : ∀ j < i, ¬ needle <+: xs.drop j

theorem length_le {needle xs : List α} {i : ℕ} (hne : needle ≠ [])
    (h : needle <+: xs.drop i) : i + needle.length ≤ xs.length := by
  have hlen := h.length_le
  have hpos := List.length_pos_iff.mpr hne
  rw [List.length_drop] at hlen
  omega

theorem isPrefix_drop_append {needle xs : List α} (ys : List α) {i : ℕ}
    (h : needle <+: xs.drop i) : needle <+: (xs ++ ys).drop i := by
  rw [List.drop_append]
  exact h.trans (List.prefix_append _ _)

theorem isPrefix_drop_of_append {needle xs ys : List α} {i : ℕ}
    (hlen : i + needle.length ≤ xs.length) (h : needle <+: (xs ++ ys).drop i) :
    needle <+: xs.drop i := by
  rw [List.drop_append] at h
  refine List.prefix_of_prefix_length_le h (List.prefix_append _ _) ?_
  rw [List.length_drop]
  omega

theorem First.append {needle xs : List α} {i : ℕ} (hne : needle ≠ [])
    (h : First needle xs i) (ys : List α) : First needle (xs ++ ys) i := by
  refine ⟨isPrefix_drop_append ys h.here, fun j hj hp ↦ h.earlier j hj ?_⟩
  have hlen := length_le hne h.here
  exact isPrefix_drop_of_append (by omega) hp

theorem First.not_mem_take {needle xs ys zs : List α} {i : ℕ} (hne : needle ≠ [])
    (h : First needle xs i) (hxs : xs = ys ++ zs) (hlen : ys.length < i + needle.length)
    (j : ℕ) : ¬ needle <+: ys.drop j := by
  intro hp
  have hj := length_le hne hp
  subst hxs
  exact h.earlier j (by omega) (isPrefix_drop_append zs hp)

/-- A block that avoids the needle's first entry is followed by its first occurrence. -/
theorem first_of_head_not_mem {a : α} {tail block : List α} (ha : a ∉ block) (rest : List α) :
    First (a :: tail) (block ++ (a :: tail) ++ rest) block.length := by
  constructor
  · rw [List.append_assoc, List.drop_left]
    exact List.prefix_append _ _
  · intro j hj hp
    rw [List.append_assoc, List.drop_append_of_le_length hj.le, List.drop_eq_getElem_cons hj,
      List.cons_append] at hp
    obtain ⟨he, -⟩ := List.cons_prefix_cons.mp hp
    exact ha (he ▸ List.getElem_mem hj)

theorem First.prepend {needle xs ys : List α} {i : ℕ} (h : First needle ys i)
    (hxs : ∀ j < xs.length, ¬ needle <+: (xs ++ ys).drop j) :
    First needle (xs ++ ys) (xs.length + i) := by
  constructor
  · rw [List.drop_length_add_append]
    exact h.here
  · intro j hj
    rcases lt_or_ge j xs.length with hlt | hge
    · exact hxs j hlt
    · obtain ⟨k, rfl⟩ := Nat.exists_eq_add_of_le hge
      rw [List.drop_length_add_append]
      exact h.earlier k (by omega)

/-- Lines that are not empty and avoid the first entry of their separator are followed by the first
occurrence of the separator repeated. -/
theorem first_of_lines {a b : α} (hab : b ≠ a) {lines : List (List α)}
    (hne : ∀ line ∈ lines, line ≠ []) (ha : ∀ line ∈ lines, a ∉ line) (rest : List α) :
    First [a, b, a, b] ([a, b].intercalate lines ++ [a, b, a, b] ++ rest)
      ([a, b].intercalate lines).length := by
  induction lines with
  | nil => exact first_of_head_not_mem (by simp) rest
  | cons line lines ih =>
    have hline := ha line List.mem_cons_self
    rcases lines with _ | ⟨next, lines⟩
    · rw [List.intercalate_singleton]
      exact first_of_head_not_mem hline rest
    · have ih := ih (fun l hl ↦ hne l (List.mem_cons_of_mem _ hl))
        fun l hl ↦ ha l (List.mem_cons_of_mem _ hl)
      -- the line behind the separator does not begin with the separator
      obtain ⟨c, next, rfl⟩ := List.exists_cons_of_ne_nil (hne next (by simp))
      have hc : c ≠ a := fun he ↦ ha (c :: next) (by simp) (he ▸ List.mem_cons_self)
      rw [List.intercalate_cons_cons, List.length_append, List.append_assoc, List.append_assoc,
        ← List.append_assoc (List.intercalate _ _)]
      refine ih.prepend fun j hj hp ↦ ?_
      rw [List.length_append, List.length_cons, List.length_singleton] at hj
      rw [List.intercalate_cons_cons_left, List.append_assoc] at hp
      rcases lt_or_ge j line.length with hlt | hge
      · rw [List.drop_append_of_le_length hlt.le, List.drop_eq_getElem_cons hlt,
          List.cons_append] at hp
        exact hline ((List.cons_prefix_cons.mp hp).1 ▸ List.getElem_mem hlt)
      · obtain rfl | rfl : j = line.length ∨ j = line.length + 1 := by omega
        · rw [List.drop_left] at hp
          simp [hc.symm] at hp
        · rw [List.drop_length_add_append] at hp
          simp [hab.symm] at hp

theorem take_eq_iff_isPrefix {needle xs : List α} :
    xs.take needle.length = needle ↔ needle <+: xs := by
  constructor
  · intro h
    rw [← h]
    exact List.take_prefix _ _
  · intro h
    exact (List.prefix_iff_eq_take.mp h).symm

section Search

variable [DecidableEq α]

theorem findIdx?_windows_eq_some_iff {needle xs : List α} (hne : needle ≠ []) {i : ℕ} :
    (windows needle.length xs).findIdx? (· = needle) = some i ↔ First needle xs i := by
  have hpos := List.length_pos_iff.mpr hne
  rw [List.findIdx?_eq_some_iff_getElem]
  simp only [windows, List.length_map, List.length_range, List.getElem_map, List.getElem_range,
    decide_eq_true_eq, take_eq_iff_isPrefix]
  constructor
  · intro hall
    obtain ⟨_, hp, he⟩ := hall
    exact ⟨hp, he⟩
  · intro h
    have hlen := length_le hne h.here
    exact ⟨by omega, h.here, h.earlier⟩

theorem findIdx?_windows_eq_none_iff {needle xs : List α} (hne : needle ≠ []) :
    (windows needle.length xs).findIdx? (· = needle) = none ↔ ∀ i, ¬ needle <+: xs.drop i := by
  have hpos := List.length_pos_iff.mpr hne
  simp only [List.findIdx?_eq_none_iff, windows, List.mem_map, List.mem_range, decide_eq_false_iff_not]
  constructor
  · intro h i hp
    have hlen := length_le hne hp
    exact h _ ⟨i, by omega, rfl⟩ (take_eq_iff_isPrefix.mpr hp)
  · rintro h _ ⟨i, _, rfl⟩ he
    exact h i (take_eq_iff_isPrefix.mp he)

end Search

end LspServerTokio.Foundation.Occurrence
