import LspServerTokio.Codec
import LspServerTokio.RequestQueue

namespace LspServerTokio

open Foundation

variable {ω ρ : Type}

/-- The senders of the requests that wait for their responses. Each operation holds the lock once. -/
structure ResponseMap (ω : Type) where
  pending : Table RequestId ω

namespace ResponseMap

def new : ResponseMap ω := ⟨.empty⟩

/-- A pending id is never taken over. -/
def tryRegister (m : ResponseMap ω) (id : RequestId) (tx : ω) : Option (ResponseMap ω) :=
  match m.pending id with
  | some _ => none
  | none => some ⟨m.pending.insert id tx⟩

def contains (m : ResponseMap ω) (id : RequestId) : Bool := (m.pending id).isSome

def deliver (m : ResponseMap ω) (id : RequestId) (response : ρ) :
    Bool × Option (ω × ρ) × ResponseMap ω :=
  match m.pending id with
  | some tx => (true, some (tx, response), ⟨m.pending.remove id⟩)
  | none => (false, none, m)

def cancel (m : ResponseMap ω) (id : RequestId) : Bool × ResponseMap ω :=
  ((m.pending id).isSome, ⟨m.pending.remove id⟩)

end ResponseMap

/-- The clean-up of a request, which knows the entry by its id only. -/
structure PendingResponseGuard where
  id : Option RequestId
  deriving DecidableEq

namespace PendingResponseGuard

def new (id : RequestId) : PendingResponseGuard := ⟨some id⟩

def disarm (_ : PendingResponseGuard) : PendingResponseGuard := ⟨none⟩

def drop (guard : PendingResponseGuard) (m : ResponseMap ω) : ResponseMap ω :=
  match guard.id with
  | some id => (m.cancel id).2
  | none => m

end PendingResponseGuard

def i32Max : ℤ := 2 ^ 31 - 1

/-- The id counter of a handle and its clones, an `i64`. -/
abbrev IdCounter := ℤ

namespace IdCounter

def new : IdCounter := 1

/-- The closure of `fetch_update`. -/
def next (current : IdCounter) : IdCounter := if current ≥ i32Max then 1 else current + 1

/-- The id that a counter stands for; without one the program panics. -/
def nextId (current : IdCounter) : Option RequestId := (I32.tryFrom current).map .integer

end IdCounter

def maxRetries : ℕ := 1000

def reserveError : IoError := .other "failed to reserve a request slot after 1000 attempts"

/-- `AtomicI64::fetch_update`: the value that it found, and the value that it leaves. -/
def fetchUpdate (current : IdCounter) (f : IdCounter → Option IdCounter) :
    Except IdCounter IdCounter × IdCounter :=
  match f current with
  | some next => (.ok current, next)
  | none => (.error current, current)

/-- The two places where `next_id` stops the program. -/
inductive NextIdPanic
  | updateFailed (current : IdCounter)
  | outOfRange (id : IdCounter)
  deriving DecidableEq

/-- What a handle shares with its clones. -/
structure ClientSender (ω : Type) where
  responseMap : ResponseMap ω
  idCounter : IdCounter

namespace ClientSender

def nextId (s : ClientSender ω) : Except NextIdPanic (RequestId × ClientSender ω) :=
  match fetchUpdate s.idCounter fun current ↦ some current.next with
  | (.error current, _) => .error (.updateFailed current)
  | (.ok id, idCounter) =>
    match I32.tryFrom id with
    | some n => .ok (.integer n, { s with idCounter })
    | none => .error (.outOfRange id)

/-- The loop of `reserve_request_slot`, with the attempts that are left. The channel whose sender is
`tx` is the one made for the attempt that succeeds. -/
def reserveLoop (tx : ω) :
    ℕ → ClientSender ω → Except NextIdPanic (Except IoError RequestId × ClientSender ω)
  | 0, s => .ok (.error reserveError, s)
  | attempts + 1, s =>
    match s.nextId with
    | .error p => .error p
    | .ok (id, s) =>
      match s.responseMap.tryRegister id tx with
      | some responseMap => .ok (.ok id, { s with responseMap })
      | none => reserveLoop tx attempts s

def reserveRequestSlot (s : ClientSender ω) (tx : ω) :
    Except NextIdPanic (Except IoError RequestId × ClientSender ω) :=
  reserveLoop tx maxRetries s

end ClientSender

end LspServerTokio
