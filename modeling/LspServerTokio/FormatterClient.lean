import Mathlib.Data.List.Nodup
import LspServerTokio.FormatterLinks

namespace LspServerTokio.FormatterServer

open Foundation Foundation.Wire Foundation.Text Link Handshake LifecycleOrder Initialize

variable {υ ω : Type} [DecidableEq υ] {serde : SerdeJson} {lib : MainLibrary υ} {timer : Option ℕ}
  {delayFirst : ℕ → Bool} {toServer toClient : Link} {ending : MainEnd υ} {c : Connection ω}
  {capabilities : Value} {early late before : List Message} {r : Request} {n : Notification}

/-- A client that is past the handshake, and means to go on. -/
structure Working (timer : Option ℕ) (early : List Message) (r : Request) (late : List Message)
    (n : Notification) (before : List Message) : Prop where
  early_passed : ∀ m ∈ early, ¬ Allowed .uninitialized (.ok m)
  initializes : r.method = initializeMethod
  late_passed : ∀ m ∈ late, ¬ Allowed .initializing (.ok m)
  initialized : n.method = initializedMethod
  timer : ∀ k, timer = some k → late.length < k
  stays : ∀ m ∈ before, ¬ Ends (.ok m)
  not_shutdown : ∀ r ∈ requests before, r.method ≠ shutdownMethod

/-- The documents of a client, and what it has sent. -/
inductive Tells (params : NotificationParams υ) (timer : Option ℕ) :
    List Message → Table υ DocumentState → Prop
  | intro {early : List Message} {r : Request} {late : List Message} {n : Notification}
      {before : List Message} {documents : Table υ DocumentState} :
      Working timer early r late n before →
      ClientRun params .empty (notifications before) documents →
      Tells params timer (early ++ .request r :: (late ++ .notification n :: before)) documents

section Front

theorem Working.messages (h : Working timer early r late n before) (req : Request) (rest : List Item) :
    messagesOf (before.map .ok ++ .ok (.request req) :: rest) =
      before ++ .request req :: messagesOf rest := by
  have hstays : ∀ item ∈ before.map Except.ok, ¬ Ends item := List.forall_mem_map.mpr h.stays
  have hrequest : ¬ Ends (.ok (.request req)) := not_false
  rw [messagesOf, List.takeWhile_append_of_pos (by simpa using hstays), List.filterMap_append,
    filterMap_ok, ← messagesOf, messagesOf_cons hrequest]

end Front

section Sample

def quoted (s : String) : List Char :=
  '\x22' :: s.toList.flatMap (fun c ↦ if c = '\n' then ['\x5c', 'n'] else [c]) ++ ['\x22']

mutual

/-- The text that serde_json writes for natural numbers, and for strings in which nothing but a line
feed has to be escaped. -/
def text : Json → List Char
  | .null => "null".toList
  | .bool true => "true".toList
  | .bool false => "false".toList
  | .number n => Nat.toDigits 10 (n.asInteger.getD 0).toNat
  | .string s => quoted s
  | .array items => '[' :: itemsText items ++ [']']
  | .object members => '\x7b' :: membersText members ++ ['\x7d']

def itemsText : List Json → List Char
  | [] => []
  | [j] => text j
  | j :: items => text j ++ ',' :: itemsText items

def membersText : List (String × Json) → List Char
  | [] => []
  | [(name, j)] => quoted name ++ ':' :: text j
  | (name, j) :: members => quoted name ++ ':' :: text j ++ ',' :: membersText members

end

end Sample

end LspServerTokio.FormatterServer
