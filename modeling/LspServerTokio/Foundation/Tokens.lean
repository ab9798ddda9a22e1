import Mathlib.Data.List.Basic
import Mathlib.Tactic.Common

namespace LspServerTokio.Foundation

/-- A handle on a node of a forest, with the nodes above it. -/
structure Token where
  node : ℕ
  ancestors : List ℕ
  deriving DecidableEq

/-- The nodes below `size` exist, and those of `cancelled` have been cancelled themselves. -/
structure Tokens where
  size : ℕ
  cancelled : List ℕ

namespace Tokens

variable (s : Tokens)

def empty : Tokens := ⟨0, []⟩

def new : Token × Tokens := (⟨s.size, []⟩, { s with size := s.size + 1 })

def child (t : Token) : Token × Tokens :=
  (⟨s.size, t.node :: t.ancestors⟩, { s with size := s.size + 1 })

def cancel (t : Token) : Tokens := { s with cancelled := t.node :: s.cancelled }

/-- A token is cancelled exactly when it or a node above it is. -/
def IsCancelled (t : Token) : Prop := ∃ n ∈ t.node :: t.ancestors, n ∈ s.cancelled

instance (t : Token) : Decidable (s.IsCancelled t) :=
  inferInstanceAs (Decidable (∃ n ∈ t.node :: t.ancestors, n ∈ s.cancelled))

@[simp] theorem isCancelled_child (t u : Token) : (s.child t).2.IsCancelled u ↔ s.IsCancelled u :=
  Iff.rfl

theorem isCancelled_cancel (t u : Token) :
    (s.cancel t).IsCancelled u ↔ t.node ∈ u.node :: u.ancestors ∨ s.IsCancelled u := by
  simp only [IsCancelled, cancel, List.mem_cons (l := s.cancelled), and_or_left, exists_or,
    exists_eq_right]

theorem isCancelled_new_child {t : Token} (h : s.size ∉ s.cancelled) :
    s.IsCancelled (s.child t).1 ↔ s.IsCancelled t := by
  simp only [IsCancelled, child, List.exists_mem_cons_iff, h, false_or]

end Tokens

end LspServerTokio.Foundation
