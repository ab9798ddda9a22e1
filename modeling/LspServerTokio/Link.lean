import LspServerTokio.Foundation.Wire
import LspServerTokio.CodecStream
import LspServerTokio.Sending

namespace LspServerTokio

open Foundation Foundation.Wire LspCodec

/-- One direction between two connections: the channel of one, its drain task, the stream, and the
receiver of the other. -/
abbrev Link := Wire Message UInt8 LspCodec (Except IoError Message) Failure

namespace Link

variable (serde : SerdeJson)

/-- How the drain task writes a message to an empty buffer, and how the receiver reads it. -/
def framing : Framing Message UInt8 LspCodec (Except IoError Message) Failure where
  encode message :=
    match encode serde message [] with
    | (.ok (), dst) => some dst
    | (.error _, _) => none
  decoder := decoder serde
  start := LspCodec.new

/-- `serde_json` reads a message as it has written it, if it can write it. -/
def Faithful (m : Message) : Prop :=
  ∀ json, serde.toVec m.serialize = .ok json → serde.fromSlice json.val = .ok m.serialize

theorem faithful_of_inverse {serde : SerdeJson} {m : Message} (h : serde.Inverse m.serialize) :
    Faithful serde m := by
  obtain ⟨json, hto, hfrom⟩ := h
  intro json' hjson
  rw [hto] at hjson
  cases hjson
  exact hfrom

/-- The messages that are given to the channel. -/
def attempts (as : List (Action Message)) : List Message :=
  as.filterMap fun
    | .send message => some message
    | _ => none

/-- A link as some run has left it. -/
def Reached (as : List (Action Message)) (link : Link) : Prop :=
  run (step (framing serde)) (.new (framing serde)) as = some link

variable {serde} {as : List (Action Message)} {link link' : Link}

theorem frames_of_faithful {m : Message} (h : Faithful serde m) :
    Frames (framing serde) (fun m ↦ .ok m.normalize) m := by
  intro bytes hbytes rest
  simp only [framing] at hbytes
  rcases hvec : serde.toVec m.serialize with e | json
  · simp [LspCodec.encode, hvec] at hbytes
  · obtain ⟨json, hencode, hparse⟩ := encode_of_inverse serde (m := m) ⟨json, hvec, h json hvec⟩
    rw [hencode] at hbytes
    cases hbytes
    have hpoll := poll_frame serde json rest
    rw [hparse] at hpoll
    exact hpoll

theorem inOrder_of_reached (h : Reached serde as link) : InOrder (framing serde) link :=
  invariant_of_run (P := InOrder (framing serde)) (fun hi hstep ↦ inOrder_step hi hstep)
    (inOrder_new (poll_new_nil serde)) h

theorem sent_of_carries {a : Action Message} (ha : a.Carries)
    (h : step (framing serde) link a = some link') : link'.sent = link.sent := by
  cases a with
  | send message => exact ha.elim
  | take =>
    obtain ⟨-, -, message, queue, -, ⟨bytes, -, rfl⟩ | ⟨-, rfl⟩⟩ := step_take h <;> rfl
  | write n =>
    obtain ⟨-, -, -, rfl⟩ := step_write h
    rfl
  | fail => exact ha.elim
  | read n =>
    obtain ⟨s, rest, items, reader, -, -, -, -, rfl⟩ := step_read h
    rfl

theorem sent_of_run {bs : List (Action Message)} (hbs : ∀ b ∈ bs, b.Carries)
    (h : run (step (framing serde)) link bs = some link') : link'.sent = link.sent := by
  induction bs generalizing link with
  | nil =>
    cases h
    rfl
  | cons b bs ih =>
    rw [run_cons, Option.bind_eq_some_iff] at h
    obtain ⟨r, hr, h⟩ := h
    rw [ih (fun b hb ↦ hbs b (List.mem_cons_of_mem _ hb)) h, sent_of_carries (hbs b List.mem_cons_self) hr]

/-- The channel has taken what it was given until the drain task ended. -/
structure Takes (as : List (Action Message)) (link : Link) : Prop where
  running : link.running = true → link.sent = attempts as
  stopped : link.sent <+: attempts as

theorem takes_of_reached (h : Reached serde as link) : Takes as link := by
  refine history_of_run (P := Takes) ⟨fun _ ↦ rfl, List.prefix_rfl⟩ ?_ h
  intro as link a link' _ htakes hstep
  have hattempts : attempts (as ++ [a]) = attempts as ++ attempts [a] := List.filterMap_append
  have hkeeps : ∀ link' : Link, attempts [a] = [] → link'.sent = link.sent →
      (link'.running = true → link.running = true) → Takes (as ++ [a]) link' := by
    intro link' hnone hsent hrunning
    rw [hnone, List.append_nil] at hattempts
    exact ⟨fun hr ↦ by rw [hsent, hattempts, htakes.running (hrunning hr)],
      by rw [hsent, hattempts]; exact htakes.stopped⟩
  cases a with
  | send message =>
    rcases step_send hstep with ⟨hrunning, rfl⟩ | ⟨hstopped, rfl⟩
    · have hsent : link.sent ++ [message] = attempts (as ++ [.send message]) := by
        rw [hattempts, htakes.running hrunning]
        rfl
      exact ⟨fun _ ↦ hsent, by rw [← hsent]⟩
    · refine ⟨fun hrunning ↦ ?_, hattempts ▸ htakes.stopped.trans (List.prefix_append _ _)⟩
      rw [hstopped] at hrunning
      cases hrunning
  | take =>
    obtain ⟨hrunning, -, message, queue, -, ⟨bytes, -, rfl⟩ | ⟨-, rfl⟩⟩ := step_take hstep
    · exact hkeeps _ rfl rfl id
    · exact hkeeps _ rfl rfl nofun
  | write n =>
    obtain ⟨-, -, -, rfl⟩ := step_write hstep
    exact hkeeps _ rfl rfl id
  | fail =>
    obtain ⟨-, rfl⟩ := step_fail hstep
    exact hkeeps _ rfl rfl nofun
  | read n =>
    obtain ⟨s, rest, items, reader, -, -, -, -, rfl⟩ := step_read hstep
    exact hkeeps _ rfl rfl id

section Delivery

/-- A link that has delivered some messages. -/
def delivered (ms : List Message) : Link where
  sent := ms
  queue := []
  running := true
  buffer := []
  stream := []
  reader := .ok (LspCodec.new, [])
  received := ms.map fun m ↦ .ok m.normalize

theorem run_delivered {m : Message} (hm : serde.Inverse m.serialize) (ms : List Message) :
    ∃ n, run (step (framing serde)) (delivered ms) [.send m, .take, .write n, .read n] =
      some (delivered (ms ++ [m])) := by
  obtain ⟨json, hencode, hparse⟩ := encode_of_inverse serde hm
  have hframe : (framing serde).encode m = some (frame json) := by
    simp only [framing, hencode, List.nil_append]
  have hdrain : (framing serde).decoder.drain LspCodec.new (frame json) =
      ([.ok m.normalize], .ok (LspCodec.new, [])) := by
    have h := drain_frames serde [json] []
    rw [drain_new_nil, List.append_nil, List.map_singleton, hparse] at h
    rw [List.flatMap_singleton] at h
    exact h
  have hpos : 0 < (frame json).length := by
    rw [frame, List.length_append, header_eq, List.length_append, length_headerTerminator]
    omega
  refine ⟨(frame json).length, ?_⟩
  simp [run, step, delivered, hframe, hpos, hdrain]

theorem reached_delivered {ms : List Message} (h : ∀ m ∈ ms, serde.Inverse m.serialize) :
    ∃ as, Reached serde as (delivered ms) := by
  induction ms using List.reverseRecOn with
  | nil => exact ⟨[], rfl⟩
  | append_singleton ms m ih =>
    obtain ⟨as, has⟩ := ih fun m hm ↦ h m (List.mem_append_left _ hm)
    obtain ⟨n, hn⟩ := run_delivered (h m (List.mem_append_right _ (List.mem_singleton_self m))) ms
    refine ⟨as ++ [.send m, .take, .write n, .read n], ?_⟩
    rw [Reached, run_append, has]
    exact hn

theorem inverse_shutdownSession : ∀ m ∈ shutdownSession, shutdownSerde.Inverse m.serialize := by
  intro m hm
  rcases List.mem_cons.mp hm with rfl | hm
  · exact ⟨⟨shutdownText, by decide⟩, rfl, rfl⟩
  · rw [List.mem_singleton.mp hm]
    exact ⟨⟨exitText, by decide⟩, rfl, rfl⟩

end Delivery

section Sender

variable {ω : Type}

theorem sends_eq_pushing (c : Connection ω) (messages : List Message) :
    messages.foldl (fun c message ↦ (c.send message).2) c = c.pushing messages := by
  induction messages generalizing c with
  | nil => rfl
  | cons message messages ih =>
    rw [List.foldl_cons, ih, (c.send_eq_pushing message).1, Connection.pushing_pushing,
      List.singleton_append]

/-- Whatever the drain task does, there is a number of messages after which the channel of a connection
is closed, and then the connection has sent what the link has taken, and the next message can be sent
exactly if the drain task is still there. -/
theorem connection_refines (h : Reached serde as link) (receiver : List (Except IoError Message)) :
    ∃ takes, ∀ c : Connection ω, c = (attempts as).foldl (fun c message ↦ (c.send message).2)
        { Connection.new receiver with outbound := ⟨[], takes⟩ } →
      c.outbound.sent = link.sent ∧
        ∀ message, (c.send message).1 = .ok () ↔ link.running = true := by
  have htakes := takes_of_reached h
  have hsend : ∀ (c : Connection ω) (message : Message),
      (c.send message).1 = .ok () ↔ c.outbound.takes ≠ some 0 := by
    intro c message
    by_cases hclosed : c.outbound.takes = some 0
    · simp [Connection.send_of_closed hclosed, hclosed]
    · simp [Connection.send_of_open hclosed, hclosed]
  by_cases hrunning : link.running = true
  · refine ⟨none, ?_⟩
    rintro c rfl
    simp only [sends_eq_pushing, hsend, hrunning, htakes.running hrunning]
    exact ⟨Outbound.sent_pushAll _ _, fun _ ↦ iff_of_true (by simp [Connection.pushing,
      Outbound.takes_pushAll]) trivial⟩
  · have hle := Nat.sub_eq_zero_of_le htakes.stopped.length_le
    refine ⟨some link.sent.length, ?_⟩
    rintro c rfl
    simp only [sends_eq_pushing, hsend, hrunning]
    refine ⟨(Outbound.sent_pushAll _ _).trans (List.prefix_iff_eq_take.mp htakes.stopped).symm,
      fun _ ↦ iff_of_false (not_not.mpr ?_) Bool.false_ne_true⟩
    simp [Connection.pushing, Outbound.takes_pushAll, hle]

/-- The drain task ends between two messages. -/
theorem connection_refines_exit :
    ∃ takes, ∀ c : Connection ℕ, c = [.notification ⟨"exit", none⟩, .notification ⟨"exit", none⟩].foldl
        (fun c message ↦ (c.send message).2) { Connection.new [] with outbound := ⟨[], takes⟩ } →
      c.outbound.sent = [.notification ⟨"exit", none⟩] ∧
        ∀ message, (c.send message).1 = .ok () ↔ false = true := by
  have hreached : Reached shutdownSerde [.send (.notification ⟨"exit", none⟩), .fail,
      .send (.notification ⟨"exit", none⟩)] ⟨[.notification ⟨"exit", none⟩],
        [.notification ⟨"exit", none⟩], false, [], [], .ok (LspCodec.new, []), []⟩ := rfl
  exact connection_refines hreached []

end Sender

/-- A link delivers what was sent over it, in its order and nothing twice, however the bytes are cut and
the steps are mixed. Whatever order the steps come in, there are only so many until all is delivered,
unless the drain task ends. -/
theorem delivers (h : Reached serde as link) (hserde : ∀ m ∈ link.sent, Faithful serde m) :
    link.received <+: link.sent.map (fun m ↦ .ok m.normalize) ∧
      (∃ codec src, link.reader = .ok (codec, src)) ∧
      ∀ bs link', (∀ b ∈ bs, b.Carries) → run (step (framing serde)) link bs = some link' →
        bs.length ≤ work (framing serde) link ∧
        (link'.running = true → (∀ b : Action Message, b.Carries → step (framing serde) link' b = none) →
          link'.received = link.sent.map fun m ↦ .ok m.normalize) := by
  have hframes : ∀ m ∈ link.sent, Frames (framing serde) (fun m ↦ .ok m.normalize) m :=
    fun m hm ↦ frames_of_faithful (hserde m hm)
  obtain ⟨hpre, hreader⟩ := received_isPrefix (poll_new_nil serde) (inOrder_of_reached h) hframes
  refine ⟨hpre, hreader, fun bs link' hbs hrun ↦ ⟨?_, fun hrunning hstuck ↦ ?_⟩⟩
  · exact (Nat.le_add_right _ _).trans (length_le_work hbs hrun)
  · have hsent := sent_of_run hbs hrun
    have hreached : Reached serde (as ++ bs) link' := by
      rw [Reached, run_append, h]
      exact hrun
    rw [← hsent] at hframes ⊢
    exact received_all (poll_new_nil serde) (inOrder_of_reached hreached) hframes hrunning hstuck

theorem delivers_shutdown :
    (∃ as, Reached shutdownSerde as (delivered shutdownSession)) ∧
      (delivered shutdownSession).received <+: shutdownSession.map (fun m ↦ .ok m.normalize) ∧
      ∃ codec src, (delivered shutdownSession).reader = .ok (codec, src) := by
  obtain ⟨as, has⟩ := reached_delivered inverse_shutdownSession
  obtain ⟨hpre, hreader, -⟩ := delivers has fun m hm ↦ faithful_of_inverse (inverse_shutdownSession m hm)
  exact ⟨⟨as, has⟩, hpre, hreader⟩

end Link

end LspServerTokio
