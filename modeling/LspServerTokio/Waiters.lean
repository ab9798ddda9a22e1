import LspServerTokio.Routing

namespace LspServerTokio

open Foundation

def Oneshot.received : Oneshot → List Reply
  | .sent reply => [reply]
  | _ => []

@[simp] theorem Oneshot.received_drop (o : Oneshot) : o.drop.received = o.received := by
  cases o <;> rfl

theorem Oneshot.length_received_le (o : Oneshot) : o.received.length ≤ 1 := by
  cases o <;> simp [received]

def Phase.isRegistered : Phase → Bool
  | .reserving _ | .generated _ _ => false
  | _ => true

namespace System

variable {s s' : System} {id : RequestId} {reply : Reply} {k n : ℕ}

def sentTo (s : System) (p : Place) : List Reply := (s.routed.filter (·.2 = p)).map Prod.fst

theorem sentTo_append {p : Place} (h : s'.routed = s.routed ++ [(reply, p)]) (q : Place) :
    s'.sentTo q = s.sentTo q ++ if p = q then [reply] else [] := by
  rw [sentTo, h, List.filter_append, List.map_append, sentTo]
  by_cases hp : p = q <;> simp [hp]

section Calls

def Unregistered (s : System) (k : ℕ) : Prop := (s.phase k).any Phase.isRegistered = false

theorem unregistered_of_insert {i : ℕ} {p : Phase} (h : s'.Unregistered k)
    (hphase : s'.phase = s.phase.insert i p) (hi : s.Unregistered i ∨ p.isRegistered = true) :
    s.Unregistered k := by
  rw [Unregistered, hphase] at h
  by_cases hk : k = i
  · subst hk
    rw [Table.insert_self] at h
    exact hi.resolve_right fun hp ↦ nomatch h.symm.trans hp
  · rwa [Table.insert_of_ne _ _ hk] at h

theorem unregistered_step {a : Action} (hn : s.Numbered) (h : Step s a s')
    (hu : s'.Unregistered k) : s.Unregistered k := by
  cases h with
  | request => exact unregistered_of_insert hu rfl (.inl (by rw [Unregistered, hn _ le_rfl]; rfl))
  | nextId hp => exact unregistered_of_insert hu rfl (.inl (by rw [Unregistered, hp]; rfl))
  | retry hp => exact unregistered_of_insert hu rfl (.inl (by rw [Unregistered, hp]; rfl))
  | register | enqueue | receive | drop => exact unregistered_of_insert hu rfl (.inr rfl)
  | _ => exact hu

theorem Unregistered.not_holds (h : s.Unregistered k) : ¬ s.Holds k id := by
  rintro (hk | hk) <;> rw [Unregistered, hk] at h <;> exact nomatch h

/-- The calls that wait for a response are those with an entry, and each has received what it was
sent. -/
structure CallWaiters (s : System) : Prop where
  numbered : s.Numbered
  entry : s.EntriesWait
  unregistered : ∀ k, s.Unregistered k → s.oneshot k = .waiting
  received : ∀ k, s.sentTo (.call k) = (s.oneshot k).received

namespace CallWaiters

theorem init : CallWaiters init :=
  ⟨fun _ _ ↦ rfl, fun _ _ h ↦ (nomatch h), fun _ _ ↦ rfl, fun _ ↦ rfl⟩

theorem unregistered_next {a : Action} (hs : s.CallWaiters) (h : Step s a s')
    (hu : s'.Unregistered k) : s'.oneshot k = .waiting := by
  have hw := hs.unregistered k (unregistered_step hs.numbered h hu)
  have hentry : ∀ {i}, s.responseMap.pending i ≠ some k := fun he ↦
    (unregistered_step hs.numbered h hu).not_holds (hs.entry _ k he).1
  cases slotEffect hs.numbered h with
  | keep _ _ hone | receive _ _ _ _ hone => rwa [hone]
  | register _ _ _ _ hone =>
    rw [hone]
    dsimp only
    split_ifs
    · rfl
    · exact hw
  | drop _ _ _ hone =>
    rw [hone]
    exact (if_neg hentry).trans hw
  | deliver _ _ hm _ hone =>
    rw [hone]
    refine (if_neg ?_).trans hw
    rintro rfl
    exact hentry hm

theorem received_step {a : Action} (hs : s.CallWaiters) (h : Step s a s') (k : ℕ) :
    s'.sentTo (.call k) = (s'.oneshot k).received := by
  cases h with
  | @register i _ _ hp =>
    refine (hs.received k).trans (congrArg Oneshot.received ?_)
    dsimp only
    split_ifs with hk
    · exact hk ▸ hs.unregistered i (by rw [Unregistered, hp]; rfl)
    · rfl
  | drop =>
    refine (hs.received k).trans ?_
    dsimp only [finish, cleanup]
    split_ifs
    · exact (Oneshot.received_drop _).symm
    · rfl
  | routeNull | routeComplete | routeUnknown =>
    rw [sentTo_append rfl, hs.received]
    simp
  | @routeDeliver _ _ i hr hm =>
    rw [sentTo_append rfl, hs.received]
    dsimp only
    by_cases hk : k = i
    · subst hk
      rw [(hs.entry _ k hm).2]
      simp [Oneshot.received, Oneshot.send]
    · simp [hk, Ne.symm hk]
  | _ => exact hs.received k

theorem step {a : Action} (hs : s.CallWaiters) (h : Step s a s') : s'.CallWaiters where
  numbered := numbered_step hs.numbered h
  entry := hs.entry.step hs.numbered h
  unregistered _ := hs.unregistered_next h
  received := hs.received_step h

end CallWaiters

theorem callWaiters_of_run {actions : List Action} (h : run step init actions = some s) :
    s.CallWaiters :=
  invariant_of_run (fun hs ha ↦ hs.step (step_of_eq_some ha)) CallWaiters.init h

end Calls

section Outgoing

/-- The waiters of the outgoing queue that wait for a response are those with an entry, and each has
received what it was sent. -/
structure OutgoingWaiters (s : System) : Prop where
  numbered : ∀ id n, s.outgoing.pending id = some n → n < s.waiters
  unique : ∀ id id' n, s.outgoing.pending id = some n → s.outgoing.pending id' = some n → id = id'
  entry : ∀ id n, s.outgoing.pending id = some n → s.outgoingOneshot n = .waiting
  later : ∀ n, s.waiters ≤ n → (s.outgoingOneshot n).received = []
  received : ∀ n, s.sentTo (.outgoing n) = (s.outgoingOneshot n).received

namespace OutgoingWaiters

theorem init : OutgoingWaiters init :=
  ⟨fun _ _ h ↦ (nomatch h), fun _ _ _ h ↦ (nomatch h), fun _ _ h ↦ (nomatch h), fun _ _ ↦ rfl,
    fun _ ↦ rfl⟩

theorem congr (hs : s.OutgoingWaiters) (hwaiters : s'.waiters = s.waiters)
    (hout : s'.outgoing = s.outgoing) (hone : s'.outgoingOneshot = s.outgoingOneshot)
    (hsent : ∀ n, s'.sentTo (.outgoing n) = s.sentTo (.outgoing n)) : s'.OutgoingWaiters where
  numbered := by rw [hwaiters, hout]; exact hs.numbered
  unique := by rw [hout]; exact hs.unique
  entry := by rw [hout, hone]; exact hs.entry
  later := by rw [hwaiters, hone]; exact hs.later
  received n := by rw [hsent, hone]; exact hs.received n

theorem register (hs : s.OutgoingWaiters) (hwaiters : s'.waiters = s.waiters + 1)
    (hout : s'.outgoing.pending = s.outgoing.pending.insert id s.waiters)
    (hone : s'.outgoingOneshot = fun n ↦
      if n = s.waiters then .waiting
      else if s.outgoing.pending id = some n then (s.outgoingOneshot n).drop
      else s.outgoingOneshot n)
    (hsent : s'.routed = s.routed) : s'.OutgoingWaiters where
  numbered i n hi := by
    rw [hout, Table.insert_eq_some] at hi
    rw [hwaiters]
    rcases hi with ⟨-, rfl⟩ | ⟨-, hi⟩
    · exact Nat.lt_succ_self _
    · exact Nat.lt_succ_of_lt (hs.numbered i n hi)
  unique i j n hi hj := by
    rw [hout, Table.insert_eq_some] at hi hj
    rcases hi with ⟨rfl, rfl⟩ | ⟨-, hi⟩ <;> rcases hj with ⟨rfl, hn⟩ | ⟨-, hj⟩
    · rfl
    · exact absurd (hs.numbered j _ hj) (lt_irrefl _)
    · exact absurd (hn ▸ hs.numbered i n hi) (lt_irrefl _)
    · exact hs.unique i j n hi hj
  entry i n hi := by
    rw [hout, Table.insert_eq_some] at hi
    rw [hone]
    rcases hi with ⟨-, rfl⟩ | ⟨hne, hi⟩
    · exact if_pos rfl
    · have hn := hs.numbered i n hi
      dsimp only
      rw [if_neg hn.ne, if_neg fun he ↦ hne (hs.unique i id n hi he)]
      exact hs.entry i n hi
  later n hn := by
    rw [hwaiters] at hn
    rw [hone]
    dsimp only
    rw [if_neg (Nat.ne_of_gt hn), if_neg fun he ↦ lt_asymm hn (hs.numbered id n he)]
    exact hs.later n (Nat.le_of_succ_le hn)
  received n := by
    rw [sentTo, hsent, ← sentTo, hs.received, hone]
    dsimp only
    split_ifs with hn
    · exact hn ▸ hs.later s.waiters le_rfl
    · exact (Oneshot.received_drop _).symm
    · rfl

theorem remove (hs : s.OutgoingWaiters) {f : Oneshot → Oneshot}
    (hwaiters : s'.waiters = s.waiters)
    (hout : s'.outgoing.pending = s.outgoing.pending.remove id)
    (hone : ∀ n, s'.outgoingOneshot n =
      if s.outgoing.pending id = some n then f (s.outgoingOneshot n) else s.outgoingOneshot n)
    (hsent : ∀ n, s.outgoing.pending id = some n → s.sentTo (.outgoing n) = [] →
      s'.sentTo (.outgoing n) = (f (s.outgoingOneshot n)).received)
    (hother : ∀ n, s.outgoing.pending id ≠ some n → s'.sentTo (.outgoing n) = s.sentTo (.outgoing n)) :
    s'.OutgoingWaiters where
  numbered i n hi := by
    rw [hout, Table.remove_eq_some] at hi
    exact hwaiters ▸ hs.numbered i n hi.2
  unique i j n hi hj := by
    rw [hout, Table.remove_eq_some] at hi hj
    exact hs.unique i j n hi.2 hj.2
  entry i n hi := by
    rw [hout, Table.remove_eq_some] at hi
    rw [hone, if_neg fun he ↦ hi.1 (hs.unique i id n hi.2 he)]
    exact hs.entry i n hi.2
  later n hn := by
    rw [hwaiters] at hn
    rw [hone, if_neg fun he ↦ absurd (hs.numbered id n he) (not_lt.mpr hn)]
    exact hs.later n hn
  received n := by
    rw [hone]
    split_ifs with hn
    · refine hsent n hn ?_
      rw [hs.received, hs.entry id n hn]
      rfl
    · rw [hother n hn, hs.received]

theorem step {a : Action} (hs : s.OutgoingWaiters) (h : Step s a s') : s'.OutgoingWaiters := by
  cases h with
  | registerOutgoing => exact hs.register rfl rfl rfl rfl
  | cancelOutgoing =>
    refine hs.remove (f := Oneshot.drop) rfl rfl (fun _ ↦ rfl) (fun n _ he ↦ ?_) fun _ _ ↦ rfl
    rw [Oneshot.received_drop, ← hs.received]
    rfl
  | @routeComplete reply i m hr hm =>
    refine hs.remove (f := (·.send reply)) rfl rfl (fun n ↦ ?_) (fun n hn he ↦ ?_) fun n hn ↦ ?_
    · simp only [hm, Option.some.injEq]
      exact if_congr eq_comm rfl rfl
    · cases hm.symm.trans hn
      rw [sentTo_append rfl, he, hs.entry i m hm]
      simp [Oneshot.send, Oneshot.received]
    · rw [sentTo_append rfl, if_neg, List.append_nil]
      intro hall
      obtain ⟨⟩ := hall
      exact hn hm
  | dropConnection =>
    refine ⟨fun _ _ h ↦ (nomatch h), fun _ _ _ h ↦ (nomatch h), fun _ _ h ↦ (nomatch h), fun n hn ↦ ?_,
      fun n ↦ ?_⟩
    · exact (Oneshot.received_drop _).trans (hs.later n hn)
    · exact (hs.received n).trans (Oneshot.received_drop _).symm
  | routeNull | routeDeliver | routeUnknown =>
    refine hs.congr rfl rfl rfl fun n ↦ ?_
    rw [sentTo_append rfl]
    simp
  | _ => exact hs.congr rfl rfl rfl fun _ ↦ rfl

end OutgoingWaiters

theorem outgoingWaiters_of_run {actions : List Action} (h : run step init actions = some s) :
    s.OutgoingWaiters :=
  invariant_of_run (fun hs ha ↦ hs.step (step_of_eq_some ha)) OutgoingWaiters.init h

end Outgoing

end System

end LspServerTokio
