import LspServerTokio.Connection

namespace LspServerTokio.Handshake

open Connection

variable {ω : Type}

abbrev Item := Except IoError Message

/-- What the receiver brings has an effect in a state. The tables of the lifecycle decide. -/
def Allowed (state : LifecycleState) : Item → Prop
  | .ok (.request r) => state.isRequestAllowed r.method = true
  | .ok (.notification n) => state.isNotificationAllowed n.method = true
  | .ok (.response _) => False
  | .error _ => True

/-- The answers to the requests among messages that come too early, in their order. -/
def rejections (items : List Item) : List Message :=
  items.filterMap fun
    | .ok (.request r) => some (notInitialized r.id)
    | _ => none

def sending (c : Connection ω) (messages : List Message) : Connection ω :=
  { c with outbound := { c.outbound with sent := c.outbound.sent ++ messages } }

theorem send_eq {c : Connection ω} (hopen : c.outbound.takes = none) (message : Message) :
    c.send message = (.ok (), sending c [message]) := by
  rw [send_of_open (by simp [hopen]), hopen]
  simp only [sending, hopen, Option.map_none]

theorem rejections_cons (item : Item) (items : List Item) :
    rejections (item :: items) = rejections [item] ++ rejections items := by
  rw [rejections, rejections, rejections, ← List.filterMap_append, List.singleton_append]

section Start

end Start

section Finish

end Finish

end LspServerTokio.Handshake
