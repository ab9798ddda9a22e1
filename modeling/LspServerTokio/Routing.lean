import LspServerTokio.Foundation.Runs
import LspServerTokio.Slots

namespace LspServerTokio.System

open Foundation

variable {s s' : System} {id : RequestId} {reply : Reply} {k n : ℕ}

def outgoingPlace (s : System) (id : RequestId) : Place :=
  match s.outgoing.pending id with
  | some n => .outgoing n
  | none => .unknown

def place (s : System) (id : RequestId) : Place :=
  match s.responseMap.pending id with
  | some k => .call k
  | none => s.outgoingPlace id

def given (s : System) : List Reply :=
  s.routed.map Prod.fst ++ (s.routing.map Routing.reply).toList

def taken (s : System) : Action → List Reply
  | .routeBegin i => s.inbound[i]?.toList
  | _ => []

def Action.isRoute : Action → Bool
  | .routeBegin _ | .routeContains | .routeDeliver | .routeComplete => true
  | _ => false

theorem not_isRoute_of_dropped {a : Action} {x : ℕ × RequestId} (h : s.dropped a = some x) :
    a.isRoute = false := by
  cases a <;> first | rfl | exact nomatch h

theorem taken_of_not_isRoute {a : Action} (h : a.isRoute = false) : s.taken a = [] := by
  cases a <;> first | rfl | exact nomatch h

/-- The two tables and the channels of those who wait are the same. -/
def SameWaiters (s s' : System) : Prop :=
  s'.responseMap = s.responseMap ∧ s'.outgoing = s.outgoing ∧ s'.oneshot = s.oneshot ∧
    s'.outgoingOneshot = s.outgoingOneshot

/-- A response arrives at its place: whoever waits there gets it, only that entry is removed, and no
one else notices. -/
inductive Arrives (s : System) (reply : Reply) : Place → System → Prop
  | call {s' : System} {id : RequestId} {k : ℕ} : reply.response.id = some id →
      s.responseMap.pending id = some k → s'.responseMap.pending = s.responseMap.pending.remove id →
      s.oneshot k = .waiting → s'.oneshot k = .sent reply → (∀ j ≠ k, s'.oneshot j = s.oneshot j) →
      s'.outgoing = s.outgoing → s'.outgoingOneshot = s.outgoingOneshot →
      Arrives s reply (.call k) s'
  | outgoing {s' : System} {id : RequestId} {n : ℕ} : reply.response.id = some id →
      s.outgoing.pending id = some n → s'.outgoing.pending = s.outgoing.pending.remove id →
      s.outgoingOneshot n = .waiting → s'.outgoingOneshot n = .sent reply →
      (∀ m ≠ n, s'.outgoingOneshot m = s.outgoingOneshot m) →
      s'.responseMap = s.responseMap → s'.oneshot = s.oneshot → Arrives s reply (.outgoing n) s'
  | unknown {s' : System} : s.SameWaiters s' → Arrives s reply .unknown s'

/-- After the actions `before`, at some moment of the call of `route` on `reply` that is under way,
the tables had `p` as the place of its id. -/
def Decided (before : List Action) (s : System) (reply : Reply) (p : Place) : Prop :=
  ∃ id earlier rest t, reply.response.id = some id ∧ before = earlier ++ rest ∧
    run step init earlier = some t ∧ t.routed = s.routed ∧
    t.routing.map Routing.reply = some reply ∧ t.place id = p

theorem given_step {a : Action} (h : Step s a s') : s'.given = s.given ++ s.taken a := by
  cases h with
  | routeNull hi hf => simp [given, taken, hi, hf.2]
  | routeBegin hi hf => simp [given, taken, hi, hf.2]
  | routeFound hr | routeAbsent hr | routeGone hr => simp [given, taken, hr]
  | routeDeliver hr | routeComplete hr | routeUnknown hr => simp [given, taken, hr]
  | drop ha =>
    rw [taken_of_not_isRoute (not_isRoute_of_dropped ha), List.append_nil]
    rfl
  | send ha => rcases ha with rfl | ⟨_, rfl⟩ <;> exact (List.append_nil _).symm
  | _ => exact (List.append_nil _).symm

/-- The responses that a run gives to `route` are those that have been routed, in this order, and the
one that is under way. -/
theorem given_of_run {actions : List Action} (h : run step init actions = some s) :
    s.given = outputs step taken init actions :=
  outputs_of_run (f := given) (fun ha ↦ given_step (step_of_eq_some ha)) h

section Tables

structure MapEmpty (s : System) : Prop where
  numbered : s.Numbered
  handles : s.mapCreated = false → s.handles = []
  started : s.mapCreated = false → s.started = 0
  pending : s.mapCreated = false → ∀ id, s.responseMap.pending id = none

theorem MapEmpty.init : MapEmpty init := ⟨fun _ _ ↦ rfl, fun _ ↦ rfl, fun _ ↦ rfl, fun _ _ ↦ rfl⟩

theorem MapEmpty.step {a : Action} (hs : s.MapEmpty) (h : Step s a s') : s'.MapEmpty := by
  have hnone : ∀ {i : ℕ} {handle : Handle}, s.handles[i]? = some handle → s.mapCreated = true := by
    intro i handle hi
    by_contra hm
    rw [hs.handles (by simpa using hm)] at hi
    exact nomatch hi
  have hphase : ∀ {k : ℕ} {p : Phase}, s.phase k = some p → s.mapCreated = true := by
    intro k p hk
    by_contra hm
    rw [hs.numbered k (by simp [hs.started (by simpa using hm)])] at hk
    exact nomatch hk
  have hcreated : s'.mapCreated = true → s'.MapEmpty := fun hm ↦
    ⟨numbered_step hs.numbered h, fun he ↦ (nomatch hm.symm.trans he),
      fun he ↦ (nomatch hm.symm.trans he), fun he ↦ nomatch hm.symm.trans he⟩
  cases h with
  | clientSender => exact hcreated rfl
  | cloneSender hi | dropSender hi | request hi => exact hcreated (hnone hi)
  | nextId hp | register hp | retry hp | enqueue hp | receive hp => exact hcreated (hphase hp)
  | drop _ hp => rcases hp with hp | hp <;> exact hcreated (hphase hp)
  | routeDeliver =>
    refine ⟨hs.numbered, hs.handles, hs.started, fun hm i ↦ ?_⟩
    by_contra hi
    obtain ⟨j, hj⟩ := Option.ne_none_iff_exists'.mp hi
    exact nomatch (hs.pending hm i).symm.trans (Table.remove_eq_some.mp hj).2
  | _ => exact ⟨hs.numbered, hs.handles, hs.started, hs.pending⟩

theorem mapEmpty_of_run {actions : List Action} (h : run step init actions = some s) : s.MapEmpty :=
  invariant_of_run (fun hs ha ↦ hs.step (step_of_eq_some ha)) MapEmpty.init h

end Tables

section UnderWay

def RoutingId (s : System) : Prop := ∀ r, s.routing = some r → r.reply.response.id = some r.id

theorem RoutingId.init : RoutingId init := fun _ hr ↦ (by cases hr)

theorem RoutingId.step {a : Action} (hs : s.RoutingId) (h : Step s a s') : s'.RoutingId := by
  cases h with
  | routeBegin _ _ hid =>
    intro r hr
    cases hr
    exact hid
  | routeFound hr | routeAbsent hr | routeGone hr =>
    intro r hr'
    cases hr'
    have hid := hs _ hr
    exact hid
  | routeDeliver | routeComplete | routeUnknown => exact fun r hr ↦ nomatch hr
  | _ => exact hs

theorem routingId_of_run {actions : List Action} (h : run step init actions = some s) :
    s.RoutingId :=
  invariant_of_run (fun hs ha ↦ hs.step (step_of_eq_some ha)) RoutingId.init h

/-- The response map is not looked at again after it had no entry for the id, and the outgoing queue
cannot change before the call of `route` ends. -/
theorem complete_step {a : Action} (h : Step s a s')
    (hr : s'.routing = some ⟨reply, id, .complete⟩) :
    s'.routed = s.routed ∧ s'.outgoing = s.outgoing ∧
      (s.routing = some ⟨reply, id, .complete⟩ ∨
        s.routing.map Routing.reply = some reply ∧
          (s.mapCreated = false ∨ s.responseMap.pending id = none)) := by
  cases h with
  | routeNull _ hf => exact nomatch hf.2.symm.trans hr
  | routeBegin => exact nomatch hr
  | routeFound => exact nomatch hr
  | routeAbsent hr' hm =>
    cases hr
    exact ⟨rfl, rfl, .inr ⟨by rw [hr']; rfl, hm⟩⟩
  | routeGone hr' hm =>
    cases hr
    exact ⟨rfl, rfl, .inr ⟨by rw [hr']; rfl, .inr hm⟩⟩
  | routeDeliver | routeComplete | routeUnknown => exact nomatch hr
  | registerOutgoing hf | dropConnection hf => exact nomatch hf.2.symm.trans hr
  | cancelOutgoing hf => exact nomatch hf.2.symm.trans hr
  | _ => exact ⟨rfl, rfl, .inl hr⟩

/-- When only the outgoing queue is left, its entry is the place that the tables had when the response
map was last looked at. -/
theorem decided_of_complete {actions : List Action} (h : run step init actions = some s)
    (hr : s.routing = some ⟨reply, id, .complete⟩) :
    Decided actions s reply (s.outgoingPlace id) := by
  revert reply id
  refine history_of_run (P := fun actions s ↦ ∀ {reply id},
    s.routing = some ⟨reply, id, .complete⟩ → Decided actions s reply (s.outgoingPlace id))
    (fun hr ↦ (by cases hr)) ?_ h
  intro actions s a s' hrun ih ha reply id hr
  have hid := routingId_of_run (run_concat.mpr ⟨s, hrun, ha⟩) _ hr
  obtain ⟨hrouted, hout, hr | ⟨hr, hm⟩⟩ := complete_step (step_of_eq_some ha) hr
  · obtain ⟨i, earlier, rest, t, hi, he, ht, hrt, hp⟩ := ih hr
    refine ⟨i, earlier, rest ++ [a], t, hi, by rw [he, List.append_assoc], ht,
      hrt.trans hrouted.symm, ?_⟩
    rwa [outgoingPlace, hout]
  · refine ⟨id, actions, [a], s, hid, rfl, hrun, hrouted.symm, hr, ?_⟩
    have hnone : s.responseMap.pending id = none := by
      rcases hm with hm | hm
      · exact (mapEmpty_of_run hrun).pending hm id
      · exact hm
    rw [place, hnone, outgoingPlace, outgoingPlace, hout]

end UnderWay

section Sequential

def returned (resp : Response) : Place → IncomingMessage
  | .unknown => .responseUnknown resp
  | _ => .responseRouted

def receiver : Place → Option ℕ
  | .call k => some k
  | .outgoing n => some n
  | .unknown => none

structure Agrees (c : Connection ℕ) (s : System) : Prop where
  responseMap : c.responseMap = if s.mapCreated then some s.responseMap else none
  outgoing : c.requestQueue.outgoing = s.outgoing

/-- If no other task interrupts `route`, its steps come to what `routeResponse` says. -/
theorem routeResponse_of_arrives {c : Connection ℕ} {p : Place} (hc : Agrees c s) (hs : s.MapEmpty)
    (hp : reply.response.id.elim .unknown s.place = p) (h : Arrives s reply p s')
    (hm : s'.mapCreated = s.mapCreated) :
    (c.routeResponse reply.response).1 = returned reply.response p ∧
      (c.routeResponse reply.response).2.1 = (receiver p).map (·, reply.response) ∧
      Agrees (c.routeResponse reply.response).2.2 s' := by
  have hmap := hc.responseMap
  have hout := hc.outgoing
  have hnone : ∀ id, s.responseMap.pending id = none →
      ∀ m, c.responseMap = some m → m.pending id = none := by
    intro id hi m hm
    rw [hmap] at hm
    split_ifs at hm
    exact Option.some.inj hm ▸ hi
  cases h with
  | @call _ id k hid hk hmap' _ _ _ hout' =>
    have hcreated : s.mapCreated = true := by
      by_contra hn
      exact absurd hk (by simp [hs.pending (by simpa using hn) id])
    rw [hcreated, if_pos rfl] at hmap
    rw [Connection.routeResponse_call hid hmap hk]
    refine ⟨rfl, rfl, ?_, hout.trans hout'.symm⟩
    rw [hm, hcreated, ← hmap']
    rfl
  | @outgoing _ id n hid hn hout' _ _ _ hmap' =>
    have hi : s.responseMap.pending id = none := by
      rw [hid, Option.elim_some, place] at hp
      split at hp
      · exact nomatch hp
      · assumption
    rw [Connection.routeResponse_outgoing hid (hnone id hi) (hout ▸ hn)]
    refine ⟨rfl, rfl, ?_, ?_⟩
    · rw [hm, hmap']
      exact hmap
    · rw [hout, ← hout']
  | unknown h =>
    obtain ⟨hmap', hout', -⟩ := h
    have hplace : ∀ id, reply.response.id = some id →
        s.responseMap.pending id = none ∧ s.outgoing.pending id = none := by
      intro id hid
      rw [hid, Option.elim_some, place, outgoingPlace] at hp
      split at hp
      · exact nomatch hp
      · split at hp
        · exact nomatch hp
        · exact ⟨by assumption, by assumption⟩
    rw [Connection.routeResponse_unknown (fun id m hid ↦ hnone id (hplace id hid).1 m)
      fun id hid ↦ hout ▸ (hplace id hid).2]
    refine ⟨rfl, rfl, ?_, hout.trans hout'.symm⟩
    rw [hm, hmap']
    exact hmap

end Sequential
end LspServerTokio.System
