import Mathlib.Data.List.Induction
import Mathlib.Tactic.Common

namespace LspServerTokio.Foundation

variable {α σ : Type}

section History

/-- Some entry satisfies `P`, and all those before it satisfy `Q`. -/
def Until (Q P : α → Prop) (xs : List α) : Prop :=
  ∃ before x after, xs = before ++ x :: after ∧ P x ∧ ∀ y ∈ before, Q y

theorem until_nil {Q P : α → Prop} : ¬ Until Q P [] := by
  intro h
  obtain ⟨before, x, after, he, -⟩ := h
  simp at he

theorem until_cons {Q P : α → Prop} {a : α} {xs : List α} :
    Until Q P (a :: xs) ↔ P a ∨ Q a ∧ Until Q P xs := by
  constructor
  · intro h
    obtain ⟨before, x, after, he, hx, hb⟩ := h
    rcases before with _ | ⟨b, before⟩
    · cases he
      exact .inl hx
    · cases he
      exact .inr ⟨hb a List.mem_cons_self, before, x, after, rfl, hx, fun y hy ↦
        hb y (List.mem_cons_of_mem _ hy)⟩
  · intro h
    rcases h with ha | ⟨ha, before, x, after, rfl, hx, hb⟩
    · exact ⟨[], a, xs, rfl, ha, by simp⟩
    · refine ⟨a :: before, x, after, rfl, hx, fun y hy ↦ ?_⟩
      rcases List.mem_cons.mp hy with rfl | hy
      · exact ha
      · exact hb y hy

end History

section Folds

/-- A fold that never fails, as long as what is still to come keeps an invariant of the state. -/
theorem foldlM_eq_foldl {ε : Type} {f : σ → α → Except ε σ} {g : σ → α → σ} {I : σ → List α → Prop}
    (hstep : ∀ {s a as}, I s (a :: as) → f s a = .ok (g s a) ∧ I (g s a) as) {s : σ} {as : List α}
    (h : I s as) : as.foldlM f s = .ok (as.foldl g s) ∧ I (as.foldl g s) [] := by
  induction as generalizing s with
  | nil => exact ⟨rfl, h⟩
  | cons a as ih =>
    obtain ⟨ha, hrest⟩ := hstep h
    rw [List.foldlM_cons, ha, List.foldl_cons]
    exact ih hrest

end Folds

section Steps

variable (step : σ → α → Option σ)

def run (s : σ) (as : List α) : Option σ := as.foldlM step s

/-- `P` holds in every state that a run goes through, the first and the last included. -/
def Always (P : σ → Prop) (s : σ) (as : List α) : Prop :=
  ∀ before after t, as = before ++ after → run step s before = some t → P t

/-- Every step of a run meets a condition on the state before it and on the action. -/
def Each (C : σ → α → Prop) (s : σ) (as : List α) : Prop :=
  ∀ before a after t t', as = before ++ a :: after → run step s before = some t →
    step t a = some t' → C t a

/-- At some moment of a run an action meets a condition on the state before it. -/
def Sometime (C : σ → α → Prop) (s : σ) (as : List α) : Prop :=
  ∃ before a after t, as = before ++ a :: after ∧ run step s before = some t ∧ C t a

def outputs {β : Type} (out : σ → α → List β) (s : σ) : List α → List β
  | [] => []
  | a :: as => out s a ++ (step s a).elim [] fun t ↦ outputs out t as

variable {step}

@[simp] theorem run_nil (s : σ) : run step s [] = some s := rfl

theorem run_cons {s : σ} {a : α} {as : List α} :
    run step s (a :: as) = (step s a).bind fun t ↦ run step t as := List.foldlM_cons

theorem run_append {s : σ} {as bs : List α} :
    run step s (as ++ bs) = (run step s as).bind fun t ↦ run step t bs := List.foldlM_append

theorem run_concat {s t : σ} {a : α} {as : List α} :
    run step s (as ++ [a]) = some t ↔ ∃ r, run step s as = some r ∧ step r a = some t := by
  simp [run, List.foldlM_append, Option.bind_eq_some_iff]

theorem always_nil {P : σ → Prop} {s : σ} : Always step P s [] ↔ P s := by
  constructor
  · exact fun h ↦ h [] [] s rfl rfl
  · rintro h before after t he hr
    obtain ⟨rfl, rfl⟩ := List.append_eq_nil_iff.mp he.symm
    cases hr
    exact h

theorem always_cons {P : σ → Prop} {s : σ} {a : α} {as : List α} :
    Always step P s (a :: as) ↔ P s ∧ ∀ t, step s a = some t → Always step P t as := by
  constructor
  · refine fun h ↦ ⟨h [] (a :: as) s rfl rfl, fun t ht before after t' he hr ↦ ?_⟩
    refine h (a :: before) after t' (by rw [he, List.cons_append]) ?_
    rwa [run_cons, ht]
  · rintro ⟨hs, h⟩ (_ | ⟨b, before⟩) after t' he hr
    · cases hr
      exact hs
    · cases he
      rw [run_cons, Option.bind_eq_some_iff] at hr
      obtain ⟨t, ht, hr⟩ := hr
      exact h t ht before after t' rfl hr

theorem each_nil {C : σ → α → Prop} {s : σ} : Each step C s [] := by
  intro before a after t t' he
  simp at he

theorem each_cons {C : σ → α → Prop} {s : σ} {a : α} {as : List α} :
    Each step C s (a :: as) ↔ ∀ t, step s a = some t → C s a ∧ Each step C t as := by
  constructor
  · refine fun h t ht ↦ ⟨h [] a as s t rfl rfl ht, fun before b after r r' he hr hb ↦ ?_⟩
    refine h (a :: before) b after r r' (by rw [he, List.cons_append]) ?_ hb
    rwa [run_cons, ht]
  · rintro h (_ | ⟨b, before⟩) c after r r' he hr hc
    · cases he
      cases hr
      exact (h r' hc).1
    · cases he
      rw [run_cons, Option.bind_eq_some_iff] at hr
      obtain ⟨t, ht, hr⟩ := hr
      exact (h t ht).2 before c after r r' rfl hr hc

theorem Each.and_mem {C : σ → α → Prop} {s : σ} {as : List α} (h : Each step C s as) :
    Each step (fun t a ↦ a ∈ as ∧ C t a) s as := by
  intro before a after t t' he hr ha
  exact ⟨he ▸ List.mem_append_right _ List.mem_cons_self, h before a after t t' he hr ha⟩

theorem invariant_of_run {P : σ → Prop} (hstep : ∀ {s a t}, P s → step s a = some t → P t)
    {s t : σ} {as : List α} (hs : P s) (h : run step s as = some t) : P t := by
  induction as generalizing s with
  | nil =>
    cases h
    exact hs
  | cons a as ih =>
    rw [run_cons, Option.bind_eq_some_iff] at h
    obtain ⟨r, hr, h⟩ := h
    exact ih (hstep hs hr) h

/-- What holds of the empty run, and of every run one step longer than one that it holds of, holds of
every run. -/
theorem history_of_run {P : List α → σ → Prop} {s t : σ} {as : List α} (hs : P [] s)
    (hstep : ∀ {as t a t'}, run step s as = some t → P as t → step t a = some t' → P (as ++ [a]) t')
    (h : run step s as = some t) : P as t := by
  induction as using List.reverseRecOn generalizing t with
  | nil =>
    cases h
    exact hs
  | append_singleton as a ih =>
    obtain ⟨r, hr, ha⟩ := run_concat.mp h
    exact hstep hr (ih hr) ha

theorem Each.left {C : σ → α → Prop} {s : σ} {as bs : List α} (h : Each step C s (as ++ bs)) :
    Each step C s as := by
  intro before a after t t' he hr ha
  exact h before a (after ++ bs) t t' (by rw [he, List.append_assoc, List.cons_append]) hr ha

theorem Each.right {C : σ → α → Prop} {s r : σ} {as bs : List α} (h : Each step C s (as ++ bs))
    (hr : run step s as = some r) : Each step C r bs := by
  intro before a after t t' he ht ha
  refine h (as ++ before) a after t t' (by rw [he, List.append_assoc]) ?_ ha
  rw [run_append, hr]
  exact ht

/-- As `history_of_run`, for the runs whose steps meet a condition. -/
theorem history_of_each {P : List α → σ → Prop} {C : σ → α → Prop} {s t : σ} {as : List α}
    (hs : P [] s) (hstep : ∀ {as t a t'}, P as t → step t a = some t' → C t a → P (as ++ [a]) t')
    (hc : Each step C s as) (h : run step s as = some t) : P as t := by
  induction as using List.reverseRecOn generalizing t with
  | nil =>
    cases h
    exact hs
  | append_singleton as a ih =>
    obtain ⟨r, hr, ha⟩ := run_concat.mp h
    exact hstep (ih hc.left hr) ha (hc as a [] r t rfl hr ha)

theorem Sometime.append {C : σ → α → Prop} {s : σ} {as : List α} (h : Sometime step C s as)
    (bs : List α) : Sometime step C s (as ++ bs) := by
  obtain ⟨before, a, after, t, rfl, hr, hc⟩ := h
  exact ⟨before, a, after ++ bs, t, by simp, hr, hc⟩

theorem Sometime.last {C : σ → α → Prop} {s t : σ} {as : List α} {a : α}
    (hr : run step s as = some t) (hc : C t a) : Sometime step C s (as ++ [a]) :=
  ⟨as, a, [], t, rfl, hr, hc⟩

theorem outputs_of_run {β : Type} {out : σ → α → List β} {f : σ → List β}
    (hf : ∀ {s a t}, step s a = some t → f t = f s ++ out s a) {s t : σ} {as : List α}
    (h : run step s as = some t) : f t = f s ++ outputs step out s as := by
  induction as generalizing s with
  | nil =>
    cases h
    exact (List.append_nil _).symm
  | cons a as ih =>
    rw [run_cons, Option.bind_eq_some_iff] at h
    obtain ⟨r, hr, h⟩ := h
    rw [ih h, hf hr, outputs, hr, List.append_assoc]
    rfl

theorem outputs_concat {β : Type} {out : σ → α → List β} {s t : σ} {as : List α} {a : α}
    (h : run step s as = some t) :
    outputs step out s (as ++ [a]) = outputs step out s as ++ out t a := by
  induction as generalizing s with
  | nil =>
    cases h
    simp only [List.nil_append, outputs]
    cases step t a <;> simp
  | cons b as ih =>
    rw [run_cons, Option.bind_eq_some_iff] at h
    obtain ⟨r, hr, h⟩ := h
    rw [List.cons_append, outputs, outputs, hr, Option.elim_some, Option.elim_some, ih h,
      List.append_assoc]

/-- Actions without output add nothing to that of a run. -/
theorem outputs_append_silent {β : Type} {out : σ → α → List β} {s : σ} {as bs : List α}
    (h : ∀ b ∈ bs, ∀ t, out t b = []) : outputs step out s (as ++ bs) = outputs step out s as := by
  have hnil : ∀ {bs : List α} {t : σ}, (∀ b ∈ bs, ∀ t, out t b = []) → outputs step out t bs = [] := by
    intro bs
    induction bs with
    | nil => exact fun _ ↦ rfl
    | cons b bs ih =>
      intro t h
      rw [outputs, h b List.mem_cons_self t, List.nil_append]
      rcases step t b with _ | r
      · rfl
      · exact ih fun c hc ↦ h c (List.mem_cons_of_mem _ hc)
  induction as generalizing s with
  | nil => exact hnil h
  | cons a as ih => simp only [List.cons_append, outputs, ih]

/-- What the steps keep under a condition holds all along the runs whose steps meet it. -/
theorem always_of_each {P : σ → Prop} {C : σ → α → Prop}
    (hstep : ∀ {s a t}, P s → step s a = some t → C s a → P t) {s : σ} {as : List α} (hs : P s)
    (h : Each step C s as) : Always step P s as := by
  induction as generalizing s with
  | nil => exact always_nil.mpr hs
  | cons a as ih =>
    refine always_cons.mpr ⟨hs, fun t ht ↦ ?_⟩
    obtain ⟨hc, h⟩ := each_cons.mp h t ht
    exact ih (hstep hs ht hc) h

/-- If a step keeps a property exactly when it meets a condition, then the property holds all along
a run exactly when each of its steps meets the condition. -/
theorem always_iff_each {I P : σ → Prop} {C : σ → α → Prop}
    (hinv : ∀ {s a t}, I s → step s a = some t → I t)
    (hstep : ∀ {s a t}, I s → P s → step s a = some t → (P t ↔ C s a)) {s : σ} {as : List α}
    (hi : I s) (hs : P s) : Always step P s as ↔ Each step C s as := by
  induction as generalizing s with
  | nil => exact iff_of_true (always_nil.mpr hs) each_nil
  | cons a as ih =>
    rw [always_cons, each_cons, and_iff_right hs]
    refine forall_congr' fun t ↦ forall_congr' fun ht ↦ ?_
    rw [← hstep hi hs ht]
    constructor
    · intro h
      have hp := h [] as t rfl rfl
      exact ⟨hp, (ih (hinv hi ht) hp).mp h⟩
    · exact fun ⟨hp, h⟩ ↦ (ih (hinv hi ht) hp).mpr h

theorem always_mono {P Q : σ → Prop} {s : σ} {as : List α} (hPQ : ∀ t, P t → Q t)
    (h : Always step P s as) : Always step Q s as :=
  fun before after t he hr ↦ hPQ t (h before after t he hr)

section Progress

/-- A run of steps that each lower a rank is no longer than the rank was. -/
theorem length_le_of_rank {I : σ → Prop} {G : α → Prop} {rank : σ → ℕ}
    (hstep : ∀ {s a t}, I s → G a → step s a = some t → I t ∧ rank t < rank s) {s t : σ} {as : List α}
    (hs : I s) (has : ∀ a ∈ as, G a) (h : run step s as = some t) :
    I t ∧ as.length + rank t ≤ rank s := by
  induction as generalizing s with
  | nil =>
    cases h
    exact ⟨hs, Nat.le_of_eq (Nat.zero_add _)⟩
  | cons a as ih =>
    rw [run_cons, Option.bind_eq_some_iff] at h
    obtain ⟨r, hr, h⟩ := h
    obtain ⟨hinv, hlt⟩ := hstep hs (has a List.mem_cons_self) hr
    obtain ⟨hend, hle⟩ := ih hinv (fun b hb ↦ has b (List.mem_cons_of_mem _ hb)) h
    refine ⟨hend, ?_⟩
    rw [List.length_cons]
    omega

/-- If such steps are taken as long as there are any, they come to an end. -/
theorem exists_run_stuck {I : σ → Prop} {G : α → Prop} {rank : σ → ℕ}
    (hstep : ∀ {s a t}, I s → G a → step s a = some t → I t ∧ rank t < rank s) {s : σ} (hs : I s) :
    ∃ as t, (∀ a ∈ as, G a) ∧ run step s as = some t ∧ ∀ a, G a → step t a = none := by
  induction hn : rank s using Nat.strongRecOn generalizing s with
  | ind n ih =>
    subst hn
    by_cases hstuck : ∀ a, G a → step s a = none
    · exact ⟨[], s, List.forall_mem_nil _, rfl, hstuck⟩
    · push Not at hstuck
      obtain ⟨a, ha, hsome⟩ := hstuck
      obtain ⟨r, hr⟩ := Option.ne_none_iff_exists'.mp hsome
      obtain ⟨hinv, hlt⟩ := hstep hs ha hr
      obtain ⟨as, t, has, hrun, hend⟩ := ih _ hlt hinv rfl
      refine ⟨a :: as, t, List.forall_mem_cons.mpr ⟨ha, has⟩, ?_, hend⟩
      rw [run_cons, hr]
      exact hrun

end Progress

end Steps

end LspServerTokio.Foundation
