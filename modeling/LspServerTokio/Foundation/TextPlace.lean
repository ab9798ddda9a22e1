import Mathlib.Data.Prod.Lex
import Mathlib.Algebra.BigOperators.Group.List.Basic
import Mathlib.Tactic.Common

namespace LspServerTokio.Foundation

section UpTo

variable {α M : Type}

/-- A bound has a rest behind what is added from the left. -/
class LeftResidual (M : Type) [AddMonoid M] [Preorder M] [Sub M] : Prop where
  zero_le : ∀ a : M, 0 ≤ a
  add_le_iff : ∀ a b c : M, a + b ≤ c ↔ a ≤ c ∧ b ≤ c - a

def total [AddMonoid M] (weight : α → M) (xs : List α) : M := (xs.map weight).sum

/-- The entries from the front whose weights stay within a bound. -/
def upTo [Preorder M] [Sub M] [DecidableLE M] (weight : α → M) : M → List α → List α
  | _, [] => []
  | bound, x :: xs => if weight x ≤ bound then x :: upTo weight (bound - weight x) xs else []

theorem total_cons [AddMonoid M] {weight : α → M} (x : α) (xs : List α) :
    total weight (x :: xs) = weight x + total weight xs := by
  rw [total, List.map_cons, List.sum_cons]
  rfl

theorem total_append [AddMonoid M] {weight : α → M} (xs ys : List α) :
    total weight (xs ++ ys) = total weight xs + total weight ys := by
  rw [total, List.map_append, List.sum_append]
  rfl

theorem upTo_isPrefix [Preorder M] [Sub M] [DecidableLE M] {weight : α → M} (bound : M) (xs : List α) :
    upTo weight bound xs <+: xs := by
  induction xs generalizing bound with
  | nil => exact List.prefix_rfl
  | cons x xs ih =>
    rw [upTo]
    split_ifs
    · exact (List.prefix_cons_inj x).mpr (ih _)
    · exact List.nil_prefix

variable [AddMonoid M] [Preorder M] [Sub M] [DecidableLE M] [LeftResidual M] {weight : α → M}

/-- The prefixes within a bound are those of `upTo`. -/
theorem total_le_iff {bound : M} {front xs : List α} (h : front <+: xs) :
    total weight front ≤ bound ↔ front <+: upTo weight bound xs := by
  induction xs generalizing bound front with
  | nil =>
    rw [List.prefix_nil.mp h]
    exact iff_of_true (LeftResidual.zero_le _) List.nil_prefix
  | cons x xs ih =>
    rcases front with _ | ⟨y, front⟩
    · exact iff_of_true (LeftResidual.zero_le _) List.nil_prefix
    · obtain ⟨rfl, hfront⟩ := List.cons_prefix_cons.mp h
      rw [total_cons, LeftResidual.add_le_iff, ih hfront, upTo]
      split_ifs with hy
      · rw [and_iff_right hy, List.prefix_cons_inj]
      · simp [hy]

theorem total_upTo_le (bound : M) (xs : List α) : total weight (upTo weight bound xs) ≤ bound :=
  (total_le_iff (upTo_isPrefix bound xs)).mpr List.prefix_rfl

theorem upTo_mono {bound bound' : M} (h : bound ≤ bound') (xs : List α) :
    upTo weight bound xs <+: upTo weight bound' xs :=
  (total_le_iff (upTo_isPrefix bound xs)).mp ((total_upTo_le bound xs).trans h)

/-- If every entry has a weight of its own, the bound that a prefix reaches gives the prefix back. -/
theorem upTo_total (hpos : ∀ (a : M) (x : α), ¬ a + weight x ≤ a) (front back : List α) :
    upTo weight (total weight front) (front ++ back) = front := by
  obtain ⟨extra, hextra⟩ := (total_le_iff (List.prefix_append front back)).mp
    (le_refl (total weight front))
  rcases extra with _ | ⟨x, extra⟩
  · rw [← hextra, List.append_nil]
  · have hle : total weight (upTo weight (total weight front) (front ++ back)) ≤ total weight front :=
      total_upTo_le _ _
    rw [← hextra, total_append, total_cons, ← add_assoc, LeftResidual.add_le_iff] at hle
    exact absurd hle.1 (hpos _ x)

end UpTo

/-- A place in a text: the line, and the units of UTF-16 before it on the line. -/
@[ext] structure TextPlace where
  line : ℕ
  character : ℕ
  deriving DecidableEq

namespace TextPlace

instance : LinearOrder TextPlace := LinearOrder.lift' (fun p ↦ toLex (p.line, p.character))
  fun p q h ↦ by
    obtain ⟨hl, hc⟩ := Prod.ext_iff.mp (toLex_inj.mp h)
    exact TextPlace.ext hl hc

theorem le_iff {p q : TextPlace} :
    p ≤ q ↔ p.line < q.line ∨ p.line = q.line ∧ p.character ≤ q.character :=
  Prod.Lex.toLex_le_toLex

/-- The place that is as far behind `p` as `q` is behind the beginning. -/
instance : Add TextPlace where
  add p q := if q.line = 0 then ⟨p.line, p.character + q.character⟩ else ⟨p.line + q.line, q.character⟩

instance : Zero TextPlace := ⟨⟨0, 0⟩⟩

instance : Sub TextPlace where
  sub p q := if p.line = q.line then ⟨0, p.character - q.character⟩ else ⟨p.line - q.line, p.character⟩

theorem add_def (p q : TextPlace) : p + q =
    if q.line = 0 then ⟨p.line, p.character + q.character⟩ else ⟨p.line + q.line, q.character⟩ := rfl

theorem sub_def (p q : TextPlace) : p - q =
    if p.line = q.line then ⟨0, p.character - q.character⟩ else ⟨p.line - q.line, p.character⟩ := rfl

theorem zero_def : (0 : TextPlace) = ⟨0, 0⟩ := rfl

instance : AddMonoid TextPlace where
  add_assoc p q r := by
    simp only [add_def]
    by_cases hr : r.line = 0 <;> by_cases hq : q.line = 0 <;> simp [hr, hq, Nat.add_assoc]
  zero_add p := by
    simp only [add_def, zero_def]
    split_ifs with h <;> ext <;> simp [h]
  add_zero p := by simp [add_def, zero_def]
  nsmul := nsmulRec

instance : LeftResidual TextPlace where
  zero_le p := by
    rw [le_iff, zero_def]
    rcases Nat.eq_zero_or_pos p.line with h | h
    · exact .inr ⟨h.symm, Nat.zero_le _⟩
    · exact .inl h
  add_le_iff p q r := by
    simp only [le_iff, add_def, sub_def]
    split_ifs <;> dsimp only <;> omega

end TextPlace

end LspServerTokio.Foundation
