import LspServerTokio.Foundation.Incremental
import LspServerTokio.Foundation.Runs

namespace LspServerTokio.Foundation

open Incremental

/-- How messages become bytes and bytes become items. -/
structure Framing (μ α σ ι ε : Type) where
  encode : μ → Option (List α)
  decoder : Decoder α σ ι ε
  start : σ

/-- A channel, the task that writes what comes out of it to a stream, and the reader at the other end of
the stream. -/
structure Wire (μ α σ ι ε : Type) where
  sent : List μ
  queue : List μ
  running : Bool
  buffer : List α
  stream : List α
  reader : Except ε (σ × List α)
  received : List ι

namespace Wire

variable {μ α σ ι ε : Type}

inductive Action (μ : Type)
  | send (message : μ)
  | take
  | write (n : ℕ)
  | fail
  | read (n : ℕ)

/-- The steps that carry messages on. -/
def Action.Carries : Action μ → Prop
  | .take | .write _ | .read _ => True
  | .send _ | .fail => False

variable (f : Framing μ α σ ι ε)

def new : Wire μ α σ ι ε := ⟨[], [], true, [], [], .ok (f.start, []), []⟩

/-- The task takes a message when the one before has been written. Without the task the channel takes
nothing. -/
def step (w : Wire μ α σ ι ε) : Action μ → Option (Wire μ α σ ι ε)
  | .send message =>
    if w.running then some { w with sent := w.sent ++ [message], queue := w.queue ++ [message] }
    else some w
  | .take =>
    match w.running, w.buffer, w.queue with
    | true, [], message :: queue =>
      match f.encode message with
      | some bytes => some { w with queue, buffer := bytes }
      | none => some { w with queue, running := false }
    | _, _, _ => none
  | .write n =>
    if w.running ∧ 0 < n ∧ n ≤ w.buffer.length then
      some { w with buffer := w.buffer.drop n, stream := w.stream ++ w.buffer.take n }
    else none
  | .fail => if w.running then some { w with running := false } else none
  | .read n =>
    match w.reader with
    | .ok (s, rest) =>
      if 0 < n ∧ n ≤ w.stream.length then
        let (items, reader) := f.decoder.drain s (rest ++ w.stream.take n)
        some { w with stream := w.stream.drop n, reader, received := w.received ++ items }
      else none
    | .error _ => none

variable {f} {w w' : Wire μ α σ ι ε}

section Steps

theorem step_send {message : μ} (h : step f w (.send message) = some w') :
    w.running = true ∧ w' = { w with sent := w.sent ++ [message], queue := w.queue ++ [message] } ∨
      w.running = false ∧ w' = w := by
  rw [step] at h
  split_ifs at h with hrunning
  · exact .inl ⟨hrunning, (Option.some.inj h).symm⟩
  · exact .inr ⟨by simpa using hrunning, (Option.some.inj h).symm⟩

theorem step_take (h : step f w .take = some w') : w.running = true ∧ w.buffer = [] ∧
    ∃ message queue, w.queue = message :: queue ∧
      ((∃ bytes, f.encode message = some bytes ∧ w' = { w with queue, buffer := bytes }) ∨
        f.encode message = none ∧ w' = { w with queue, running := false }) := by
  rw [step] at h
  split at h
  · next message queue hrunning hbuffer hqueue =>
    refine ⟨hrunning, hbuffer, message, queue, hqueue, ?_⟩
    split at h
    · next bytes hbytes => exact .inl ⟨bytes, hbytes, (Option.some.inj h).symm⟩
    · next hnone => exact .inr ⟨hnone, (Option.some.inj h).symm⟩
  · cases h

theorem step_write {n : ℕ} (h : step f w (.write n) = some w') :
    w.running = true ∧ 0 < n ∧ n ≤ w.buffer.length ∧
      w' = { w with buffer := w.buffer.drop n, stream := w.stream ++ w.buffer.take n } := by
  rw [step] at h
  split_ifs at h with hn
  exact ⟨hn.1, hn.2.1, hn.2.2, (Option.some.inj h).symm⟩

theorem step_fail (h : step f w .fail = some w') :
    w.running = true ∧ w' = { w with running := false } := by
  rw [step] at h
  split_ifs at h with hrunning
  exact ⟨hrunning, (Option.some.inj h).symm⟩

theorem step_read {n : ℕ} (h : step f w (.read n) = some w') :
    ∃ s rest items reader, w.reader = .ok (s, rest) ∧ 0 < n ∧ n ≤ w.stream.length ∧
      f.decoder.drain s (rest ++ w.stream.take n) = (items, reader) ∧
      w' = { w with stream := w.stream.drop n, reader, received := w.received ++ items } := by
  rw [step] at h
  split at h
  · next s rest hreader =>
    split_ifs at h with hn
    exact ⟨s, rest, _, _, hreader, hn.1, hn.2, rfl, (Option.some.inj h).symm⟩
  · cases h

end Steps

section Order

/-- What the wire has done with the messages: those it has encoded, and those it has lost. -/
structure Carried (f : Framing μ α σ ι ε) (w : Wire μ α σ ι ε) (done lost : List μ)
    (chunks : List (List α)) (read : List α) : Prop where
  sent : w.sent = done ++ lost ++ w.queue
  lost : w.running = true → lost = []
  encoded : done.map f.encode = chunks.map some
  bytes : chunks.flatten = read ++ (w.stream ++ w.buffer)
  reader : f.decoder.drain f.start read = (w.received, w.reader)

def InOrder (f : Framing μ α σ ι ε) (w : Wire μ α σ ι ε) : Prop :=
  ∃ done lost chunks read, Carried f w done lost chunks read

theorem inOrder_new (hstart : f.decoder.poll f.start [] = .pending f.start []) : InOrder f (new f) :=
  ⟨[], [], [], [], rfl, fun _ ↦ rfl, rfl, rfl, f.decoder.drain_pending hstart⟩

theorem inOrder_step {a : Action μ} (h : InOrder f w) (hstep : step f w a = some w') : InOrder f w' := by
  obtain ⟨done, lost, chunks, read, h⟩ := h
  cases a with
  | send message =>
    rcases step_send hstep with ⟨hrunning, rfl⟩ | ⟨-, rfl⟩
    · refine ⟨done, lost, chunks, read, ?_, h.lost, h.encoded, h.bytes, h.reader⟩
      rw [h.sent, List.append_assoc]
    · exact ⟨done, lost, chunks, read, h⟩
  | take =>
    obtain ⟨hrunning, hbuffer, message, queue, hqueue, ⟨bytes, hbytes, rfl⟩ | ⟨-, rfl⟩⟩ := step_take hstep
    · have hlost := h.lost hrunning
      refine ⟨done ++ [message], [], chunks ++ [bytes], read, ?_, fun _ ↦ rfl, ?_, ?_, h.reader⟩
      · rw [h.sent, hlost, hqueue]
        simp
      · rw [List.map_append, List.map_append, h.encoded, List.map_singleton, hbytes, List.map_singleton]
      · have hflatten := h.bytes
        rw [hbuffer, List.append_nil] at hflatten
        rw [List.flatten_append, hflatten, List.flatten_singleton, List.append_assoc]
    · refine ⟨done, [message], chunks, read, ?_, nofun, h.encoded, h.bytes, h.reader⟩
      rw [h.sent, h.lost hrunning, hqueue]
      simp
  | write n =>
    obtain ⟨-, -, -, rfl⟩ := step_write hstep
    refine ⟨done, lost, chunks, read, h.sent, h.lost, h.encoded, ?_, h.reader⟩
    rw [h.bytes, List.append_assoc w.stream, List.take_append_drop]
  | fail =>
    obtain ⟨-, rfl⟩ := step_fail hstep
    exact ⟨done, lost, chunks, read, h.sent, nofun, h.encoded, h.bytes, h.reader⟩
  | read n =>
    obtain ⟨s, rest, items, reader, hreader, -, -, hdrain, rfl⟩ := step_read hstep
    refine ⟨done, lost, chunks, read ++ w.stream.take n, h.sent, h.lost, h.encoded, ?_, ?_⟩
    · rw [h.bytes, List.append_assoc read, ← List.append_assoc (w.stream.take n), List.take_append_drop]
    · rw [f.decoder.drain_append, h.reader, hreader, Outcome.andThen_ok, hdrain]

/-- The bytes of a message are decoded into one item, and nothing of them is left. -/
def Frames (f : Framing μ α σ ι ε) (item : μ → ι) (message : μ) : Prop :=
  ∀ bytes, f.encode message = some bytes →
    ∀ rest, f.decoder.poll f.start (bytes ++ rest) = .item (item message) f.start rest

variable {item : μ → ι} {done lost : List μ} {chunks : List (List α)} {read : List α}

theorem drain_chunks (hstart : f.decoder.poll f.start [] = .pending f.start [])
    (hframes : ∀ m ∈ done, Frames f item m) (h : done.map f.encode = chunks.map some) :
    f.decoder.drain f.start chunks.flatten = (done.map item, .ok (f.start, [])) := by
  induction done generalizing chunks with
  | nil =>
    obtain rfl : chunks = [] := List.map_eq_nil_iff.mp h.symm
    exact f.decoder.drain_pending hstart
  | cons m done ih =>
    rcases chunks with _ | ⟨bytes, chunks⟩
    · cases h
    · simp only [List.map_cons, List.cons.injEq] at h
      have hpoll := hframes m List.mem_cons_self bytes h.1 chunks.flatten
      rw [List.flatten_cons, f.decoder.drain_item hpoll,
        ih (fun m hm ↦ hframes m (List.mem_cons_of_mem _ hm)) h.2]
      rfl

/-- The reader has not failed, and goes on with the bytes that are on their way to the items of the
messages that are encoded. -/
theorem Carried.reads (hstart : f.decoder.poll f.start [] = .pending f.start [])
    (h : Carried f w done lost chunks read) (hframes : ∀ m ∈ w.sent, Frames f item m) :
    ∃ s rest items, w.reader = .ok (s, rest) ∧
      f.decoder.drain s (rest ++ (w.stream ++ w.buffer)) = (items, .ok (f.start, [])) ∧
      done.map item = w.received ++ items := by
  have hdone : ∀ m ∈ done, Frames f item m := fun m hm ↦ hframes m (by
    rw [h.sent]
    exact List.mem_append_left _ (List.mem_append_left _ hm))
  have hall := drain_chunks hstart hdone h.encoded
  rw [h.bytes, f.decoder.drain_append, h.reader] at hall
  rcases hreader : w.reader with e | ⟨s, rest⟩
  · simp [hreader] at hall
  · rw [hreader, Outcome.andThen_ok, Prod.mk.injEq] at hall
    exact ⟨s, rest, _, rfl, Prod.ext rfl hall.2, hall.1.symm⟩

/-- Nothing is received that has not been sent, nothing twice, and nothing out of order. -/
theorem received_isPrefix (hstart : f.decoder.poll f.start [] = .pending f.start [])
    (h : InOrder f w) (hframes : ∀ m ∈ w.sent, Frames f item m) :
    w.received <+: w.sent.map item ∧ ∃ s rest, w.reader = .ok (s, rest) := by
  obtain ⟨done, lost, chunks, read, h⟩ := h
  obtain ⟨s, rest, items, hreader, -, hitems⟩ := h.reads hstart hframes
  refine ⟨⟨items ++ (lost ++ w.queue).map item, ?_⟩, s, rest, hreader⟩
  rw [← List.append_assoc, ← hitems, ← List.map_append, ← List.append_assoc, ← h.sent]

end Order

section Progress

/-- The steps that are left until all is delivered are no more than this. -/
def work (f : Framing μ α σ ι ε) (w : Wire μ α σ ι ε) : ℕ :=
  w.queue.length + 2 * (w.queue.flatMap fun m ↦ (f.encode m).getD []).length + 2 * w.buffer.length +
    w.stream.length

theorem work_step {a : Action μ} (ha : a.Carries) (hstep : step f w a = some w') :
    work f w' < work f w := by
  cases a with
  | send message => exact ha.elim
  | take =>
    obtain ⟨-, hbuffer, message, queue, hqueue, ⟨bytes, hbytes, rfl⟩ | ⟨hnone, rfl⟩⟩ := step_take hstep
    · simp only [work, hqueue, hbuffer, List.flatMap_cons, hbytes, Option.getD_some, List.length_append,
        List.length_cons, List.length_nil]
      omega
    · simp only [work, hqueue, List.flatMap_cons, List.length_append, List.length_cons]
      omega
  | write n =>
    obtain ⟨-, hpos, hle, rfl⟩ := step_write hstep
    simp only [work, List.length_drop, List.length_append, List.length_take]
    omega
  | fail => exact ha.elim
  | read n =>
    obtain ⟨s, rest, items, reader, -, hpos, hle, -, rfl⟩ := step_read hstep
    simp only [work, List.length_drop]
    omega

theorem length_le_work {as : List (Action μ)} (has : ∀ a ∈ as, a.Carries)
    (h : run (step f) w as = some w') : as.length + work f w' ≤ work f w :=
  (length_le_of_rank (I := fun _ ↦ True) (fun _ ha hstep ↦ ⟨trivial, work_step ha hstep⟩) trivial has h).2

/-- Without a step that carries messages on, there is nothing left on the way. -/
theorem stuck (hrunning : w.running = true) (hreader : ∃ s rest, w.reader = .ok (s, rest))
    (h : ∀ a : Action μ, a.Carries → step f w a = none) :
    w.queue = [] ∧ w.buffer = [] ∧ w.stream = [] := by
  have hbuffer : w.buffer = [] := by
    by_contra hne
    have hwrite := h (.write w.buffer.length) trivial
    rw [step, if_pos ⟨hrunning, List.length_pos_iff.mpr hne, Nat.le_refl _⟩] at hwrite
    cases hwrite
  have hqueue : w.queue = [] := by
    rcases hq : w.queue with _ | ⟨message, queue⟩
    · rfl
    · have htake := h .take trivial
      simp only [step, hrunning, hbuffer, hq] at htake
      split at htake <;> cases htake
  refine ⟨hqueue, hbuffer, ?_⟩
  by_contra hne
  obtain ⟨s, rest, hreader⟩ := hreader
  have hread := h (.read w.stream.length) trivial
  simp only [step, hreader, if_pos (And.intro (List.length_pos_iff.mpr hne) (Nat.le_refl _))] at hread
  cases hread

variable {item : μ → ι}

/-- When nothing is left on the way, all has been received. -/
theorem received_all (hstart : f.decoder.poll f.start [] = .pending f.start []) (h : InOrder f w)
    (hframes : ∀ m ∈ w.sent, Frames f item m) (hrunning : w.running = true)
    (hstuck : ∀ a : Action μ, a.Carries → step f w a = none) : w.received = w.sent.map item := by
  obtain ⟨done, lost, chunks, read, h⟩ := h
  obtain ⟨s, rest, items, hreader, hdrain, hitems⟩ := h.reads hstart hframes
  obtain ⟨hqueue, hbuffer, hstream⟩ := stuck hrunning ⟨s, rest, hreader⟩ hstuck
  have hnone : f.decoder.drain s rest = ([], .ok (s, rest)) := by
    have hreads := h.reader
    rw [hreader] at hreads
    exact f.decoder.drain_pending (f.decoder.poll_of_drain hreads)
  rw [hbuffer, hstream, List.append_nil, List.append_nil, hnone, Prod.mk.injEq] at hdrain
  rw [h.sent, h.lost hrunning, hqueue, List.append_nil, List.append_nil, hitems, ← hdrain.1,
    List.append_nil]

end Progress

end Wire

end LspServerTokio.Foundation
