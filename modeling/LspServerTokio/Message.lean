import LspServerTokio.Json

namespace LspServerTokio

open Foundation

/-- An error of serde or serde_json themselves, or one that the crate raises with its own text. -/
inductive SerdeError
  | serde
  | custom (text : String)
  deriving DecidableEq, Repr

section Derived

def Unique (names : List String) (members : List (String × Json)) : Prop :=
  ∀ name ∈ names, (members.filter (·.1 = name)).length ≤ 1

instance (names : List String) (members : List (String × Json)) : Decidable (Unique names members) :=
  inferInstanceAs (Decidable (∀ name ∈ names, _ ≤ 1))

/-- The fields that serde's derived struct visitor reads: from an object by name, where a field
may occur at most once and other members are ignored, or from an array by position. -/
def structFields (names : List String) : Json → Except SerdeError (String → Option Json)
  | .object members =>
    if Unique names members then .ok (Entries.get members) else .error .serde
  | .array items =>
    if items.length = names.length then .ok (Entries.get (names.zip items)) else .error .serde
  | _ => .error .serde

def required {α : Type} (read : Json → Except SerdeError α) : Option Json → Except SerdeError α
  | some j => read j
  | none => .error .serde

/-- `Option<Value>::deserialize`, for a field that may also be missing. -/
def optionValue : Option Json → Option Value
  | none | some .null => none
  | some j => some (Value.deserialize j)

def stringDeserialize : Json → Except SerdeError String
  | .string s => .ok s
  | _ => .error .serde

def i32Deserialize : Json → Except SerdeError I32
  | .number n =>
    match n.asInteger.bind I32.tryFrom with
    | some i => .ok i
    | none => .error .serde
  | _ => .error .serde

end Derived

inductive RequestId
  | integer (n : I32)
  | string (s : String)
  deriving DecidableEq

namespace RequestId

def serialize : RequestId → Json
  | .integer n => .number (.ofI32 n)
  | .string s => .string s

/-- `serde_json::to_value` -/
def toValue (id : RequestId) : Value where
  json := id.serialize
  isValue := by
    cases id with
    | integer n => exact .number _
    | string s => exact .string s

/-- The untagged enum tries the integer first. -/
def deserialize (j : Json) : Except SerdeError RequestId :=
  match i32Deserialize j with
  | .ok n => .ok (.integer n)
  | .error _ => (stringDeserialize j).map .string

end RequestId

inductive ErrorCode
  | parseError
  | invalidRequest
  | methodNotFound
  | invalidParams
  | internalError
  | serverNotInitialized
  | unknownErrorCode
  | requestFailed
  | serverCancelled
  | contentModified
  | requestCancelled
  deriving DecidableEq, Repr

def ErrorCode.code : ErrorCode → I32
  | .parseError => ⟨-32700, by decide⟩
  | .invalidRequest => ⟨-32600, by decide⟩
  | .methodNotFound => ⟨-32601, by decide⟩
  | .invalidParams => ⟨-32602, by decide⟩
  | .internalError => ⟨-32603, by decide⟩
  | .serverNotInitialized => ⟨-32002, by decide⟩
  | .unknownErrorCode => ⟨-32001, by decide⟩
  | .requestFailed => ⟨-32803, by decide⟩
  | .serverCancelled => ⟨-32802, by decide⟩
  | .contentModified => ⟨-32801, by decide⟩
  | .requestCancelled => ⟨-32800, by decide⟩

structure ResponseError where
  code : I32
  message : String
  data : Option Value

namespace ResponseError

def new (code : ErrorCode) (message : String) : ResponseError := ⟨code.code, message, none⟩

def serialize (e : ResponseError) : Json :=
  .object ([("code", .number (.ofI32 e.code)), ("message", .string e.message)] ++
    e.data.toList.map fun data ↦ ("data", data.json))

def deserialize (j : Json) : Except SerdeError ResponseError := do
  let field ← structFields ["code", "message", "data"] j
  return {
    code := ← required i32Deserialize (field "code")
    message := ← required stringDeserialize (field "message")
    data := optionValue (field "data") }

end ResponseError

def jsonrpcVersion : String := "2.0"

def validateJsonrpcField (jsonrpc : String) : Except SerdeError Unit :=
  if jsonrpc = jsonrpcVersion then .ok ()
  else .error (.custom ("expected jsonrpc field to equal \"" ++ jsonrpcVersion ++ "\", got \"" ++
    jsonrpc ++ "\""))

structure Request where
  id : RequestId
  method : String
  params : Option Value

namespace Request

def serialize (r : Request) : Json :=
  .object ([("jsonrpc", .string jsonrpcVersion), ("id", r.id.serialize), ("method", .string r.method)] ++
    r.params.toList.map fun params ↦ ("params", params.json))

structure Repr where
  jsonrpc : String
  id : RequestId
  method : String
  params : Option Value

def Repr.deserialize (j : Json) : Except SerdeError Repr := do
  let field ← structFields ["jsonrpc", "id", "method", "params"] j
  return {
    jsonrpc := ← required stringDeserialize (field "jsonrpc")
    id := ← required RequestId.deserialize (field "id")
    method := ← required stringDeserialize (field "method")
    params := optionValue (field "params") }

def deserialize (j : Json) : Except SerdeError Request := do
  let repr ← Repr.deserialize j
  validateJsonrpcField repr.jsonrpc
  return ⟨repr.id, repr.method, repr.params⟩

end Request

inductive ResponseBody
  | success (result : Value)
  | error (e : ResponseError)

structure Response where
  id : Option RequestId
  body : ResponseBody

namespace Response

def ok (id : RequestId) (result : Value) : Response := ⟨some id, .success result⟩

def err (id : RequestId) (e : ResponseError) : Response := ⟨some id, .error e⟩

def parseError (e : ResponseError) : Response := ⟨none, .error e⟩

def serialize (r : Response) : Json :=
  .object [("jsonrpc", .string jsonrpcVersion),
    ("id", (r.id.map RequestId.serialize).getD .null),
    match r.body with
    | .success result => ("result", result.json)
    | .error e => ("error", e.serialize)]

def deserializeId : Option Value → Except SerdeError (Option RequestId)
  | some idVal =>
    if idVal.isNull then .ok none else (RequestId.deserialize idVal.json).map some
  | none => .ok none

/-- The body of a response that has a `result` or an `error` member; an error that is not null
comes first. -/
def deserializeBody (result error : Option Value) : Except SerdeError ResponseBody :=
  if error.isSome then
    let errorVal := error.getD .null
    if errorVal.isNull && result.isSome then .ok (.success (result.getD .null))
    else if errorVal.isNull then
      .error (.custom "Response has error field but it is null and no result field")
    else (ResponseError.deserialize errorVal.json).map .error
  else .ok (.success (result.getD .null))

def deserialize (j : Json) : Except SerdeError Response :=
  match (Value.deserialize j).asObject with
  | none => .error (.custom "expected object")
  | some obj =>
    let result := Entries.get obj "result"
    let error := Entries.get obj "error"
    if !result.isSome && !error.isSome then
      .error (.custom "Response must have either 'result' or 'error' field")
    else do
      let some jsonrpc := (Entries.get obj "jsonrpc").bind Value.asStr
        | .error (.custom "missing jsonrpc field")
      validateJsonrpcField jsonrpc
      let id ← deserializeId (Entries.get obj "id")
      let body ← deserializeBody result error
      return ⟨id, body⟩

end Response

structure Notification where
  method : String
  params : Option Value

namespace Notification

def serialize (n : Notification) : Json :=
  .object ([("jsonrpc", .string jsonrpcVersion), ("method", .string n.method)] ++
    n.params.toList.map fun params ↦ ("params", params.json))

structure Repr where
  jsonrpc : String
  method : String
  params : Option Value

def Repr.deserialize (j : Json) : Except SerdeError Repr := do
  let field ← structFields ["jsonrpc", "method", "params"] j
  return {
    jsonrpc := ← required stringDeserialize (field "jsonrpc")
    method := ← required stringDeserialize (field "method")
    params := optionValue (field "params") }

def deserialize (j : Json) : Except SerdeError Notification := do
  let repr ← Repr.deserialize j
  validateJsonrpcField repr.jsonrpc
  return ⟨repr.method, repr.params⟩

end Notification

inductive Message
  | request (r : Request)
  | response (r : Response)
  | notification (n : Notification)

namespace Message

def serialize : Message → Json
  | .request r => r.serialize
  | .response r => r.serialize
  | .notification n => n.serialize

/-- The untagged enum tries its variants in order and forgets why one failed. -/
def deserialize (j : Json) : Except SerdeError Message :=
  match Request.deserialize j with
  | .ok r => .ok (.request r)
  | .error _ =>
    match Response.deserialize j with
    | .ok r => .ok (.response r)
    | .error _ =>
      match Notification.deserialize j with
      | .ok n => .ok (.notification n)
      | .error _ => .error .serde

end Message

end LspServerTokio
