import LspServerTokio.Foundation.Runs
import LspServerTokio.SlotReservation
import LspServerTokio.Steps

namespace LspServerTokio.System

open Foundation

variable {s s' : System} {i : ℕ}

/-- The id that an action draws from the counter `i`, which a handle shares with its clones. -/
def drawn (i : ℕ) (s : System) : Action → List RequestId
  | .nextId k =>
    match s.phase k, s.handles[s.sender k]? with
    | some (.reserving _), some handle =>
      if handle.counter = i then ((s.counters[i]?).bind IdCounter.nextId).toList else []
    | _, _ => []
  | _ => []

theorem drawn_nextId {k attempt : ℕ} {handle : Handle} {current : IdCounter} {id : RequestId}
    (hp : s.phase k = some (.reserving attempt)) (hh : s.handles[s.sender k]? = some handle)
    (hc : s.counters[handle.counter]? = some current) (hid : current.nextId = some id) :
    s.drawn i (.nextId k) = if handle.counter = i then [id] else [] := by
  simp only [drawn, hp, hh]
  split_ifs with he
  · rw [← he, hc, Option.bind_some, hid, Option.toList_some]
  · rfl

theorem drawn_of_ne {a : Action} (h : ∀ k, a ≠ .nextId k) : s.drawn i a = [] := by
  cases a with
  | nextId k => exact absurd rfl (h k)
  | _ => rfl

/-- Each counter has gone round from 1 as often as an id was drawn from it. -/
structure GoesRound (ids : ℕ → List RequestId) (s : System) : Prop where
  counter : ∀ i c, s.counters[i]? = some c → c = Cycle.after i32Max 1 (ids i).length
  unused : ∀ i, s.counters.length ≤ i → ids i = []
  drawn : ∀ i a id, (ids i)[a]? = some id → id = cyclicId 1 a

namespace GoesRound

theorem init : GoesRound (fun _ ↦ []) init where
  counter _ _ h := nomatch h
  unused _ _ := rfl
  drawn _ _ _ h := nomatch h

theorem clientSender {ids : ℕ → List RequestId} (hs : GoesRound ids s)
    (hc : s'.counters = s.counters ++ [.new]) : GoesRound ids s' where
  counter i c h := by
    rw [hc, List.getElem?_append] at h
    split_ifs at h with hi
    · exact hs.counter i c h
    · have hnew : c = IdCounter.new := by
        have hmem := List.mem_of_getElem? h
        simpa using hmem
      rw [hs.unused i (not_lt.mp hi), hnew]
      rfl
  unused i hi := by
    rw [hc, List.length_append] at hi
    exact hs.unused i (by omega)
  drawn := hs.drawn

theorem nextId {ids : ℕ → List RequestId} (hs : GoesRound ids s) {n : ℕ} {current : IdCounter}
    {id : RequestId} (hn : s.counters[n]? = some current) (hid : current.nextId = some id)
    (hc : s'.counters = s.counters.set n current.next) :
    GoesRound (fun i ↦ ids i ++ if n = i then [id] else []) s' := by
  have hcurrent := hs.counter n current hn
  have hmem := Cycle.after_mem (by decide : 0 < i32Max) 1 (ids n).length
  rw [← hcurrent] at hmem
  have hidn : id = cyclicId 1 (ids n).length := by
    have he := nextId_eq_cyclicId hmem.1 hmem.2
    rw [hcurrent, cyclicId_after, ← hcurrent, hid] at he
    exact Option.some.inj he
  refine ⟨fun i c h ↦ ?_, fun i hi ↦ ?_, fun i a j h ↦ ?_⟩
  · rw [hc, List.getElem?_set] at h
    split_ifs at h with hin hlt
    · subst hin
      cases h
      simp only [if_true, List.length_append, List.length_singleton]
      rw [← Cycle.next_after (by decide), ← hcurrent]
      rfl
    · simpa [hin] using hs.counter i c h
  · rw [hc, List.length_set] at hi
    have hlt := (List.getElem?_eq_some_iff.mp hn).1
    rw [hs.unused i hi, if_neg (by omega), List.append_nil]
  · split_ifs at h with hin
    · subst hin
      rw [List.getElem?_append] at h
      split_ifs at h with ha
      · exact hs.drawn n a j h
      · obtain ⟨hlt, hj⟩ := List.getElem?_eq_some_iff.mp h
        have ha' : a = (ids n).length := by
          rw [List.length_singleton] at hlt
          omega
        subst ha'
        simp only [Nat.sub_self, List.getElem_cons_zero] at hj
        exact hj ▸ hidn
    · rw [List.append_nil] at h
      exact hs.drawn i a j h

theorem step {ids : ℕ → List RequestId} (hs : GoesRound ids s) {a : Action} (h : Step s a s') :
    GoesRound (fun i ↦ ids i ++ s.drawn i a) s' := by
  rcases counters_step h with ⟨rfl, hc⟩ | ⟨k, handle, current, id, rfl, ⟨⟨attempt, hp⟩, hh⟩, hn, hid, hc⟩ | ⟨ha, hc⟩
  · simpa only [drawn_of_ne (a := .clientSender) nofun, List.append_nil] using hs.clientSender hc
  · simpa only [drawn_nextId hp hh hn hid] using hs.nextId hn hid hc
  · simp only [drawn_of_ne ha, List.append_nil]
    exact ⟨hc ▸ hs.counter, hc ▸ hs.unused, hs.drawn⟩

end GoesRound

/-- The ids drawn from the counter `i` in a run, in the order of the atomic updates. -/
def generated (actions : List Action) (i : ℕ) : List RequestId := outputs step (drawn i) init actions

theorem goesRound_of_run {actions : List Action} (h : run step init actions = some s) :
    GoesRound (generated actions) s := by
  refine history_of_run (P := fun actions s ↦ GoesRound (generated actions) s) GoesRound.init ?_ h
  intro actions t a t' hr ht ha
  have hstep := ht.step (step_of_eq_some ha)
  have hconcat : generated (actions ++ [a]) = fun i ↦ generated actions i ++ t.drawn i a :=
    funext fun i ↦ outputs_concat hr
  rwa [hconcat]

/-- However the calls of a handle and its clones interleave, their counter stays in its range, no
update of it can fail, and an id that comes again comes after all the others. -/
theorem generated_cycle {actions : List Action} (h : run step init actions = some s) {c : IdCounter}
    (hc : s.counters[i]? = some c) :
    (1 ≤ c ∧ c ≤ i32Max) ∧
    (∀ responseMap : ResponseMap ℕ, ∃ id,
      ClientSender.nextId ⟨responseMap, c⟩ = .ok (id, ⟨responseMap, c.next⟩)) ∧
    (∀ id ∈ generated actions i, ∃ n : I32, id = .integer n ∧ 1 ≤ n.val ∧ n.val ≤ i32Max) ∧
    (∀ (a b : ℕ) id, a < b → (b : ℤ) < a + i32Max → (generated actions i)[a]? = some id →
      (generated actions i)[b]? ≠ some id) ∧
    ∀ (a b : ℕ) id (n : I32), a < b → (generated actions i)[a]? = some id →
      (generated actions i)[b]? = some id → 1 ≤ n.val →
      ∃ j, a ≤ j ∧ j < b ∧ (generated actions i)[j]? = some (.integer n) := by
  have hs := goesRound_of_run h
  have hmem : 1 ≤ c ∧ c ≤ i32Max := hs.counter i c hc ▸ Cycle.after_mem (by decide) 1 _
  have hdistinct : ∀ (a b : ℕ) id, a < b → (b : ℤ) < a + i32Max → (generated actions i)[a]? = some id →
      (generated actions i)[b]? ≠ some id := by
    intro a b id hab hb ha hb'
    exact cyclicId_ne hab hb ((hs.drawn i a id ha).symm.trans (hs.drawn i b id hb'))
  refine ⟨hmem, fun responseMap ↦ ?_, fun id hid ↦ ?_, hdistinct, fun a b id n hab ha hb hn ↦ ?_⟩
  · exact ⟨_, ClientSender.nextId_eq hmem.1 hmem.2⟩
  · obtain ⟨a, ha⟩ := List.mem_iff_getElem?.mp hid
    exact ⟨_, hs.drawn i a id ha, Cycle.after_mem (by decide) 1 a⟩
  · have hmax : n.val ≤ i32Max := by
      have := n.property
      simp only [i32Max]
      omega
    obtain ⟨j, haj, hj, he⟩ := Cycle.exists_after_eq hn hmax 1 a
    have hjb : j < b := by
      by_contra hbj
      exact hdistinct a b id hab (by omega) ha hb
    have hlt : j < (generated actions i).length :=
      hjb.trans (List.getElem?_eq_some_iff.mp hb).1
    refine ⟨j, haj, hjb, ?_⟩
    rw [List.getElem?_eq_getElem hlt, hs.drawn i j _ (List.getElem?_eq_getElem hlt)]
    exact congrArg (some ∘ RequestId.integer) (Subtype.ext he)

/-- Two calls that draw their ids through a handle and its clone. -/
def clonedDraws : List Action :=
  [.clientSender, .cloneSender 0, .request 0, .request 1, .nextId 1, .nextId 0]

theorem generated_cycle_cloned :
    generated clonedDraws 0 = [cyclicId 1 0, cyclicId 1 1] ∧
      (generated clonedDraws 0)[1]? ≠ some (cyclicId 1 0) :=
  have hdrawn : generated clonedDraws 0 = [cyclicId 1 0, cyclicId 1 1] := rfl
  have hdistinct := (@generated_cycle _ 0 clonedDraws rfl 3 rfl).2.2.2.1
  ⟨hdrawn, hdistinct 0 1 (cyclicId 1 0) Nat.one_pos (by decide) (hdrawn ▸ rfl)⟩

section Reservation

variable {k attempt : ℕ} {handle : Handle} {c : IdCounter} {id : RequestId}

/-- Where a call is when its reservation is over. -/
def reservedPhase : Except IoError RequestId → Phase
  | .ok id => .registered id
  | .error e => .ended (.error (.io e))

/-- The state that has the map, the counter and the phase of a call, and nothing else, in common
with what `reserve_request_slot` leaves. -/
structure Reserved (s s' : System) (k n : ℕ) (result : Except IoError RequestId)
    (sender : ClientSender ℕ) : Prop where
  responseMap : s'.responseMap = sender.responseMap
  counters : s'.counters = s.counters.set n sender.idCounter
  phase : s'.phase k = some (reservedPhase result)

theorem attempt_run (hphase : s.phase k = some (.reserving attempt))
    (hh : s.handles[s.sender k]? = some handle) (hc : s.counters[handle.counter]? = some c)
    (hid : c.nextId = some id) :
    run step s [.nextId k, .tryRegister k] = tryRegister { s with
      counters := s.counters.set handle.counter c.next
      phase := s.phase.insert k (.generated attempt id) } k := by
  have hstep : step s (.nextId k) = some { s with
      counters := s.counters.set handle.counter c.next
      phase := s.phase.insert k (.generated attempt id) } := by
    simp [step, nextId, hphase, hh, hc, hid]
  rw [run_cons, hstep, Option.bind_some, run_cons]
  simp [step]

/-- With no other action in between, the steps of a call that reserves its slot do what
`reserve_request_slot` does. -/
theorem reserveLoop_run {attempts : ℕ} {result : Except IoError RequestId} {sender : ClientSender ℕ}
    (hphase : s.phase k = some (.reserving attempt)) (hh : s.handles[s.sender k]? = some handle)
    (hc : s.counters[handle.counter]? = some c) (hattempts : attempt + attempts = maxRetries)
    (hlt : attempt < maxRetries)
    (h : ClientSender.reserveLoop k attempts ⟨s.responseMap, c⟩ = .ok (result, sender)) :
    ∃ actions s', (∀ a ∈ actions, a = .nextId k ∨ a = .tryRegister k) ∧
      run step s actions = some s' ∧ Reserved s s' k handle.counter result sender := by
  induction attempts generalizing s attempt c with
  | zero => exact absurd hattempts hlt.ne
  | succ attempts ih =>
    rw [ClientSender.reserveLoop] at h
    rcases hnext : ClientSender.nextId ⟨s.responseMap, c⟩ with p | ⟨id, next⟩
    · rw [hnext] at h
      cases h
    · rw [hnext] at h
      obtain ⟨hid, rfl⟩ := ClientSender.nextId_eq_ok.mp hnext
      have hrun := attempt_run hphase hh hc hid
      rcases hm : s.responseMap.tryRegister id k with _ | m
      · simp only [hm] at h
        by_cases hnext : attempt + 1 < maxRetries
        · simp only [tryRegister, Table.insert_self, hm, if_pos hnext] at hrun
          have hcounter := (List.getElem?_eq_some_iff.mp hc).1
          set s₁ : System := { s with
            counters := s.counters.set handle.counter c.next
            phase := (s.phase.insert k (.generated attempt id)).insert k (.reserving (attempt + 1)) }
          obtain ⟨actions, s', hmem, hrest, hs'⟩ := ih (s := s₁) (Table.insert_self _ _ _) hh
            (List.getElem?_set_self hcounter) (by omega) hnext h
          refine ⟨[.nextId k, .tryRegister k] ++ actions, s', ?_, ?_, hs'.responseMap, ?_, hs'.phase⟩
          · simpa using hmem
          · rw [run_append, hrun]
            exact hrest
          · rw [hs'.counters, List.set_set]
        · simp only [tryRegister, Table.insert_self, hm, if_neg hnext] at hrun
          obtain rfl : attempts = 0 := by omega
          simp only [ClientSender.reserveLoop, Except.ok.injEq, Prod.mk.injEq] at h
          obtain ⟨rfl, rfl⟩ := h
          exact ⟨_, _, by simp, hrun, rfl, rfl, Table.insert_self _ _ _⟩
      · simp only [hm, Except.ok.injEq, Prod.mk.injEq] at h
        obtain ⟨rfl, rfl⟩ := h
        simp only [tryRegister, Table.insert_self, hm] at hrun
        exact ⟨_, _, by simp, hrun, rfl, rfl, Table.insert_self _ _ _⟩

end Reservation

end LspServerTokio.System
