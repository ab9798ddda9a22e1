import LspServerTokio.Handshake
import LspServerTokio.Sending

namespace LspServerTokio

namespace Connection

/-- The loop of `send_request`, over what the receiver brings. The timer goes off when `timer` more
messages have been received, or never. -/
def sendRequestLoop (id : RequestId) : Option ℕ → List (Except IoError Message) →
    Except ProtocolError Response × List (Except IoError Message)
  | some 0, rest => (.error .requestTimeout, rest)
  | _, [] => (.error .disconnected, [])
  | _, .error e :: rest => (.error (.io e), rest)
  | timer, .ok (.response resp) :: rest =>
    if resp.id = some id then (.ok resp, rest) else sendRequestLoop id (timer.map (· - 1)) rest
  | timer, .ok (.request _) :: rest => sendRequestLoop id (timer.map (· - 1)) rest
  | timer, .ok (.notification _) :: rest => sendRequestLoop id (timer.map (· - 1)) rest

def sendRequest {ω : Type} (c : Connection ω) (id : RequestId) (method : String) (params : Option Value)
    (timer : Option ℕ) : Except ProtocolError Response × Connection ω :=
  match c.send (.request ⟨id, method, params⟩) with
  | (.error e, c) => (.error (.io e), c)
  | (.ok (), c) =>
    let (result, rest) := sendRequestLoop id timer c.receiver
    (result, { c with receiver := rest })

end Connection

namespace SendRequest

open Connection Handshake

variable {ω : Type}

/-- Any message but a response to the request is dropped, whatever waits for it. -/
def Discarded (id : RequestId) : Item → Prop
  | .ok (.response resp) => resp.id ≠ some id
  | .ok (.request _) | .ok (.notification _) => True
  | .error _ => False

/-- How the call ends behind the messages that it has dropped: what comes next, what it returns, and
the items that are left. -/
inductive WaitEnd (id : RequestId) (timer : Option ℕ) (dropped : ℕ) :
    List Item → Except ProtocolError Response → List Item → Prop
  | timeout (next : List Item) : timer = some dropped →
      WaitEnd id timer dropped next (.error .requestTimeout) next
  | closed : (∀ k, timer = some k → dropped < k) → WaitEnd id timer dropped [] (.error .disconnected) []
  | readError (e : IoError) (rest : List Item) : (∀ k, timer = some k → dropped < k) →
      WaitEnd id timer dropped (.error e :: rest) (.error (.io e)) rest
  | answered {resp : Response} (rest : List Item) : (∀ k, timer = some k → dropped < k) →
      resp.id = some id → WaitEnd id timer dropped (.ok (.response resp) :: rest) (.ok resp) rest

variable {id : RequestId} {timer : Option ℕ}

theorem timer_pos (ht : timer ≠ some 0) : ∀ k, timer = some k → 0 < k := by
  rintro k rfl
  exact Nat.pos_of_ne_zero fun hk ↦ ht (congrArg some hk)

theorem sendRequestLoop_discard (ht : timer ≠ some 0) {item : Item} (h : Discarded id item)
    (items : List Item) :
    sendRequestLoop id timer (item :: items) = sendRequestLoop id (timer.map (· - 1)) items := by
  rcases item with e | r | resp | n
  · exact h.elim
  · rw [sendRequestLoop]
    exact ht
  · have hid : resp.id ≠ some id := h
    rw [sendRequestLoop, if_neg hid]
    exact ht
  · rw [sendRequestLoop]
    exact ht

/-- One more dropped message is one less until the timer goes off. -/
theorem WaitEnd.drop (ht : timer ≠ some 0) {dropped : ℕ} {next rest : List Item}
    {result : Except ProtocolError Response}
    (h : WaitEnd id (timer.map (· - 1)) dropped next result rest) :
    WaitEnd id timer (dropped + 1) next result rest := by
  have htimer : (∀ k, timer.map (· - 1) = some k → dropped < k) →
      ∀ k, timer = some k → dropped + 1 < k := by
    rintro hlt k rfl
    exact Nat.add_lt_of_lt_sub (hlt (k - 1) rfl)
  cases h with
  | timeout next hd =>
    obtain ⟨k, rfl, hk⟩ := Option.map_eq_some_iff.mp hd
    have hpos := timer_pos ht k rfl
    refine .timeout next (congrArg some ?_)
    omega
  | closed hlt => exact .closed (htimer hlt)
  | readError e rest hlt => exact .readError e rest (htimer hlt)
  | answered rest hlt hid => exact .answered rest (htimer hlt) hid

theorem sendRequestLoop_eq (id : RequestId) (timer : Option ℕ) (items : List Item) :
    ∃ dropped next result rest, items = dropped ++ next ∧ (∀ item ∈ dropped, Discarded id item) ∧
      WaitEnd id timer dropped.length next result rest ∧
      sendRequestLoop id timer items = (result, rest) := by
  induction items generalizing timer with
  | nil =>
    by_cases ht : timer = some 0
    · subst ht
      exact ⟨[], [], _, _, rfl, by simp, .timeout [] rfl, by rw [sendRequestLoop]⟩
    · refine ⟨[], [], _, _, rfl, by simp, .closed (timer_pos ht), ?_⟩
      rw [sendRequestLoop]
      exact ht
  | cons item items ih =>
    by_cases ht : timer = some 0
    · subst ht
      exact ⟨[], item :: items, _, _, rfl, by simp, .timeout _ rfl, by rw [sendRequestLoop]⟩
    by_cases h : Discarded id item
    · obtain ⟨dropped, next, result, rest, rfl, hdropped, hend, heq⟩ := ih (timer.map (· - 1))
      refine ⟨item :: dropped, next, result, rest, rfl, List.forall_mem_cons.mpr ⟨h, hdropped⟩,
        hend.drop ht, ?_⟩
      rw [sendRequestLoop_discard ht h, heq]
    · rcases item with e | r | resp | n
      · refine ⟨[], _, _, _, rfl, by simp, .readError e items (timer_pos ht), ?_⟩
        rw [sendRequestLoop]
        exact ht
      · exact absurd trivial h
      · have hid : resp.id = some id := not_not.mp h
        refine ⟨[], _, _, _, rfl, by simp, .answered items (timer_pos ht) hid, ?_⟩
        rw [sendRequestLoop, if_pos hid]
        exact ht
      · exact absurd trivial h

/-- The blocking call sends its request and takes what comes from the stream, up to the first response
with its id, an error, the end, or its timer. All that it takes before is dropped: no request of the
other side is registered or answered, no cancellation takes effect, and no other call gets its response.
On a closed channel it takes nothing. -/
theorem sendRequest_exact (c : Connection ω) (id : RequestId) (method : String) (params : Option Value)
    (timer : Option ℕ) :
    c.outbound.takes = some 0 ∧ c.sendRequest id method params timer =
        (.error (.io (.brokenPipe "connection closed")), c) ∨
      c.outbound.takes ≠ some 0 ∧ ∃ dropped next result rest, c.receiver = dropped ++ next ∧
        (∀ item ∈ dropped, Discarded id item) ∧ WaitEnd id timer dropped.length next result rest ∧
        c.sendRequest id method params timer = (result,
          { c.pushing [.request ⟨id, method, params⟩] with receiver := rest }) := by
  by_cases hclosed : c.outbound.takes = some 0
  · refine .inl ⟨hclosed, ?_⟩
    rw [sendRequest, send_of_closed hclosed]
  · obtain ⟨dropped, next, result, rest, hsplit, hdropped, hend, hloop⟩ :=
      sendRequestLoop_eq id timer c.receiver
    refine .inr ⟨hclosed, dropped, next, result, rest, hsplit, hdropped, hend, ?_⟩
    obtain ⟨hpush, ⟨hc, -⟩ | hok⟩ := c.send_eq_pushing (.request ⟨id, method, params⟩)
    · exact absurd hc hclosed
    · have hs : c.send (.request ⟨id, method, params⟩) =
          (.ok (), c.pushing [.request ⟨id, method, params⟩]) := by rw [← hpush, ← hok]
      have hreceiver : (c.pushing [.request ⟨id, method, params⟩]).receiver = c.receiver := rfl
      simp only [sendRequest, hs, hreceiver, hloop]

end SendRequest

end LspServerTokio
