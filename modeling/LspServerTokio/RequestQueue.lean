import LspServerTokio.Foundation.Table
import LspServerTokio.Foundation.Tokens
import LspServerTokio.Message

namespace LspServerTokio

open Foundation

def cancelRequestMethod : String := "$/cancelRequest"

def parseCancelParams (params : Option Value) : Option RequestId := do
  let params ← params
  let idValue ← params.get "id"
  match idValue.json with
  | .number n => (n.asI64.bind I32.tryFrom).map .integer
  | .string s => some (.string s)
  | _ => none

structure IncomingRequests where
  pending : Table RequestId Token

namespace IncomingRequests

def new : IncomingRequests := ⟨.empty⟩

def register (q : IncomingRequests) (id : RequestId) (token : Token) : IncomingRequests :=
  ⟨q.pending.insert id token⟩

def complete (q : IncomingRequests) (id : RequestId) : Bool × IncomingRequests :=
  ((q.pending id).isSome, ⟨q.pending.remove id⟩)

/-- The table keeps the entry; only the token changes. -/
def cancel (q : IncomingRequests) (id : RequestId) (tokens : Tokens) : Bool × Tokens :=
  match q.pending id with
  | some token => (true, tokens.cancel token)
  | none => (false, tokens)

end IncomingRequests

variable {ω ρ : Type}

structure OutgoingRequests (ω : Type) where
  pending : Table RequestId ω

namespace OutgoingRequests

def new : OutgoingRequests ω := ⟨.empty⟩

/-- A sender that was registered under the same id before is dropped. -/
def register (q : OutgoingRequests ω) (id : RequestId) (tx : ω) : OutgoingRequests ω :=
  ⟨q.pending.insert id tx⟩

def complete (q : OutgoingRequests ω) (id : RequestId) (response : ρ) :
    Bool × Option (ω × ρ) × OutgoingRequests ω :=
  match q.pending id with
  | some tx => (true, some (tx, response), ⟨q.pending.remove id⟩)
  | none => (false, none, q)

def cancel (q : OutgoingRequests ω) (id : RequestId) : Bool × OutgoingRequests ω :=
  ((q.pending id).isSome, ⟨q.pending.remove id⟩)

def isPending (q : OutgoingRequests ω) (id : RequestId) : Bool := (q.pending id).isSome

end OutgoingRequests

structure RequestQueue (ω : Type) where
  incoming : IncomingRequests
  outgoing : OutgoingRequests ω

def RequestQueue.new : RequestQueue ω := ⟨.new, .new⟩

end LspServerTokio
