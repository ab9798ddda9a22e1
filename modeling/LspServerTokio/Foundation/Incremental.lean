import Mathlib.Tactic.Common

namespace LspServerTokio.Foundation.Incremental

variable {α σ ι ε β γ : Type}

/-- A decoder called on a buffer waits for more input, hands out an item, or fails for good. -/
inductive Poll (α σ ι ε : Type)
  | pending (state : σ) (rest : List α)
  | item (out : ι) (state : σ) (rest : List α)
  | fatal (error : ε)

/-- A decoder that is fed its input piece by piece. Items and failures are decided by the bytes
seen so far, and a decoder that waits has lost nothing that a longer buffer would need. -/
structure Decoder (α σ ι ε : Type) where
  poll : σ → List α → Poll α σ ι ε
  measure : σ → List α → ℕ
  measure_lt : ∀ {s b o s' b'}, poll s b = .item o s' b' → measure s' b' < measure s b
  item_append : ∀ {s b o s' b'}, poll s b = .item o s' b' →
    ∀ x, poll s (b ++ x) = .item o s' (b' ++ x)
  fatal_append : ∀ {s b e}, poll s b = .fatal e → ∀ x, poll s (b ++ x) = .fatal e
  pending_append : ∀ {s b s' b'}, poll s b = .pending s' b' →
    ∀ x, poll s (b ++ x) = poll s' (b' ++ x)

abbrev Outcome (ι ε β : Type) := List ι × Except ε β

/-- Continue after a run that did not fail; a failure stops everything behind it. -/
def Outcome.andThen (r : Outcome ι ε β) (f : β → Outcome ι ε γ) : Outcome ι ε γ :=
  match r.2 with
  | .error e => (r.1, .error e)
  | .ok b => (r.1 ++ (f b).1, (f b).2)

@[simp] theorem Outcome.andThen_ok (os : List ι) (b : β) (f : β → Outcome ι ε γ) :
    Outcome.andThen (os, .ok b) f = (os ++ (f b).1, (f b).2) := rfl

@[simp] theorem Outcome.andThen_error (os : List ι) (e : ε) (f : β → Outcome ι ε γ) :
    Outcome.andThen (os, .error e) f = (os, .error e) := rfl

namespace Decoder

variable (d : Decoder α σ ι ε)

def drain (s : σ) (b : List α) : Outcome ι ε (σ × List α) :=
  match _h : d.poll s b with
  | .pending s' b' => ([], .ok (s', b'))
  | .item o s' b' => (o :: (drain s' b').1, (drain s' b').2)
  | .fatal e => ([], .error e)
termination_by d.measure s b
decreasing_by all_goals exact d.measure_lt ‹_›

theorem drain_pending {s s' : σ} {b b' : List α} (h : d.poll s b = .pending s' b') :
    d.drain s b = ([], .ok (s', b')) := by
  rw [drain]
  split <;> simp_all

theorem drain_item {s s' : σ} {b b' : List α} {o : ι} (h : d.poll s b = .item o s' b') :
    d.drain s b = (o :: (d.drain s' b').1, (d.drain s' b').2) := by
  rw [drain]
  split <;> simp_all

theorem drain_fatal {s : σ} {b : List α} {e : ε} (h : d.poll s b = .fatal e) :
    d.drain s b = ([], .error e) := by
  rw [drain]
  split <;> simp_all

theorem poll_of_pending {s s' : σ} {b b' : List α} (h : d.poll s b = .pending s' b') :
    d.poll s' b' = .pending s' b' := by
  have hp := d.pending_append h []
  rw [List.append_nil, List.append_nil, h] at hp
  exact hp.symm

/-- Draining a longer buffer is draining its front first and going on with what is left. -/
theorem drain_append (s : σ) (b x : List α) :
    d.drain s (b ++ x) = (d.drain s b).andThen fun p ↦ d.drain p.1 (p.2 ++ x) := by
  fun_induction d.drain s b with
  | case1 s b s' b' h =>
    have hp := d.pending_append h x
    simp only [Outcome.andThen_ok, List.nil_append]
    rw [drain, drain, hp]
  | case2 s b o s' b' h ih =>
    rw [d.drain_item (d.item_append h x), ih]
    cases hr : (d.drain s' b').2 <;> simp [Outcome.andThen, hr]
  | case3 s b e h => rw [d.drain_fatal (d.fatal_append h x), Outcome.andThen_error]

theorem poll_of_drain {s s' : σ} {b b' : List α} {os : List ι}
    (h : d.drain s b = (os, .ok (s', b'))) : d.poll s' b' = .pending s' b' := by
  fun_induction d.drain s b generalizing os with
  | case1 s b t c hp =>
    simp only [Prod.mk.injEq, Except.ok.injEq] at h
    obtain ⟨-, rfl, rfl⟩ := h
    exact d.poll_of_pending hp
  | case2 s b o t c hp ih =>
    simp only [Prod.mk.injEq] at h
    exact ih (Prod.ext rfl h.2)
  | case3 s b e hp => simp at h

/-- Append the pieces one by one and drain after each of them; stop at the first failure. -/
def feed (s : σ) (b : List α) : List (List α) → Outcome ι ε (σ × List α)
  | [] => ([], .ok (s, b))
  | c :: cs => (d.drain s (b ++ c)).andThen fun p ↦ feed p.1 p.2 cs

/-- How the input is cut into pieces makes no difference. -/
theorem feed_eq_drain {s : σ} {b : List α} (h : d.poll s b = .pending s b)
    (cs : List (List α)) : d.feed s b cs = d.drain s (b ++ cs.flatten) := by
  induction cs generalizing s b with
  | nil => rw [List.flatten_nil, List.append_nil, feed, d.drain_pending h]
  | cons c cs ih =>
    rw [feed, List.flatten_cons, ← List.append_assoc, d.drain_append _ (b ++ c)]
    rcases hr : d.drain s (b ++ c) with ⟨os, e | ⟨s', b'⟩⟩
    · rfl
    · simp only [Outcome.andThen_ok, ih (d.poll_of_drain hr)]

theorem feed_eq_feed {s : σ} {b : List α} (h : d.poll s b = .pending s b)
    {cs cs' : List (List α)} (hc : cs.flatten = cs'.flatten) : d.feed s b cs = d.feed s b cs' := by
  rw [d.feed_eq_drain h, d.feed_eq_drain h, hc]

end Decoder

end LspServerTokio.Foundation.Incremental
