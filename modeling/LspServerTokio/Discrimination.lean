import LspServerTokio.Grammar

namespace LspServerTokio

open Foundation

/-- The member of an object, the last one if the name is repeated. -/
def Json.member (v : Json) (name : String) : Option Json :=
  match v with
  | .object members => Entries.get members.reverse name
  | _ => none

def Json.Has (v : Json) (name : String) : Prop := v.member name ≠ none

namespace Discrimination

open Grammar

/-- The rules by which the three kinds of messages are told apart, for what a document `v`
decodes to. -/
def Sound (v : Json) : Prop :=
  ∀ m, Message.deserialize v = .ok m →
    (∃ members, v = .object members) ∧ v.member "jsonrpc" = some (.string "2.0") ∧
    (match m with
      | .request _ => v.Has "id" ∧ v.Has "method"
      | .response _ => v.Has "result" ∨ v.Has "error"
      | .notification _ => v.Has "method" ∧ ¬ v.Has "id") ∧
    (v.Has "id" → v.Has "method" → ∃ r, m = .request r)

section Shapes

def IsI32 : Json → Prop
  | .number n => ∃ i, n.asInteger = some i ∧ -2 ^ 31 ≤ i ∧ i < 2 ^ 31
  | _ => False

def IsRequestId : Json → Prop
  | .string _ => True
  | j => IsI32 j

def IsResponseError (j : Json) : Prop :=
  (∃ code text data, j = .array [code, .string text, data] ∧ IsI32 code) ∨
  ∃ members, j = .object members ∧ (∃ code, j.member "code" = some code ∧ IsI32 code) ∧
    ∃ text, j.member "message" = some (.string text)

/-- An object in which neither `id` nor another field of a request is missing, of another type or
repeated. -/
def RequestObject (v : Json) : Prop :=
  ∃ members, v = .object members ∧ Unique ["jsonrpc", "id", "method", "params"] members ∧
    v.member "jsonrpc" = some (.string "2.0") ∧ (∃ id, v.member "id" = some id ∧ IsRequestId id) ∧
    ∃ method, v.member "method" = some (.string method)

def ResponseObject (v : Json) : Prop :=
  ∃ members, v = .object members ∧ v.member "jsonrpc" = some (.string "2.0") ∧
    (∀ id, v.member "id" = some id → id = .null ∨ IsRequestId id) ∧
    ((∃ e, v.member "error" = some e ∧ IsResponseError e) ∨
      (v.member "error" = none ∨ v.member "error" = some .null) ∧ v.Has "result")

def NotificationObject (v : Json) : Prop :=
  ∃ members, v = .object members ∧ Unique ["jsonrpc", "method", "params"] members ∧
    v.member "jsonrpc" = some (.string "2.0") ∧ ∃ method, v.member "method" = some (.string method)

/-- The fields of a request in a row, without their names. -/
def RequestArray (v : Json) : Prop :=
  ∃ id method params, v = .array [.string "2.0", id, .string method, params] ∧ IsRequestId id

def NotificationArray (v : Json) : Prop :=
  ∃ method params, v = .array [.string "2.0", .string method, params]

/-- The documents that the decoder takes for something they are not: fields without names, and
objects with an id and a method that are no request and yet form a response or a notification. -/
def Misread (v : Json) : Prop :=
  RequestArray v ∨ NotificationArray v ∨
    (v.Has "id" ∧ v.Has "method" ∧ ¬ RequestObject v ∧ (ResponseObject v ∨ NotificationObject v))

end Shapes

section Accepted

theorem i32_accepts {j : Json} : (∃ i, i32Deserialize j = .ok i) ↔ IsI32 j := by
  simp only [i32Deserialize_eq_ok]
  constructor
  · intro hall
    obtain ⟨i, n, rfl, hn⟩ := hall
    exact ⟨i.val, hn, i.property⟩
  · intro h
    cases j with
    | number n =>
      obtain ⟨i, hn, hi⟩ := h
      exact ⟨⟨i, hi⟩, n, rfl, hn⟩
    | _ => exact h.elim

theorem requestId_accepts {j : Json} : (∃ id, RequestId.deserialize j = .ok id) ↔ IsRequestId j := by
  simp only [requestId_eq_ok]
  constructor
  · intro hall
    obtain ⟨id, ⟨i, hi, -⟩ | ⟨s, rfl, -⟩⟩ := hall
    · cases j with
      | string => trivial
      | _ => exact i32_accepts.mp ⟨i, hi⟩
    · trivial
  · intro h
    cases j with
    | string s => exact ⟨.string s, .inr ⟨s, rfl, rfl⟩⟩
    | number n =>
      obtain ⟨i, hi⟩ := (i32_accepts (j := .number n)).mpr h
      exact ⟨.integer i, .inl ⟨i, hi, rfl⟩⟩
    | _ => exact h.elim

theorem get_eq_member {names : List String} {members : List (String × Json)}
    (h : Unique names members) {name : String} (hn : name ∈ names) :
    Entries.get members name = (Json.object members).member name :=
  (Entries.get_reverse (h name hn)).symm

theorem responseError_accepts {j : Json} :
    (∃ e, ResponseError.deserialize j.collapse = .ok e) ↔ IsResponseError j := by
  simp only [responseError_eq_ok]
  cases j with
  | object members =>
    simp only [structFields_collapse, Except.ok.injEq, exists_eq_left', Option.map_eq_some_iff,
      collapse_eq_string, exists_eq_right]
    constructor
    · intro h
      obtain ⟨e, ⟨_, ⟨c, hc, rfl⟩, hi⟩, hm, -⟩ := h
      exact .inr ⟨members, rfl, ⟨c, hc, i32_accepts.mp ⟨e.code, i32_collapse c ▸ hi⟩⟩, e.message, hm⟩
    · intro h
      rcases h with ⟨_, _, _, he, _⟩ | ⟨_, _, ⟨c, hc, hi⟩, text, hm⟩
      · cases he
      · obtain ⟨i, hi⟩ := i32_accepts.mpr hi
        exact ⟨⟨i, text, _⟩, ⟨_, ⟨c, hc, rfl⟩, (i32_collapse c).trans hi⟩, hm, rfl⟩
  | array items =>
    simp only [Json.collapse, structFields_eq_ok, Json.collapseItems_eq_map, reduceCtorEq,
      false_and, exists_false, false_or, Json.array.injEq, exists_eq_left', List.length_map]
    constructor
    · intro h
      obtain ⟨e, _, ⟨hlen, rfl⟩, ⟨c, hc, hi⟩, hm, -⟩ := h
      obtain ⟨code, message, data, rfl⟩ := List.length_eq_three.mp hlen
      simp [Entries.get_cons] at hc hm
      rw [← hc, i32_collapse] at hi
      exact .inl ⟨code, e.message, data, by rw [collapse_eq_string.mp hm], i32_accepts.mp ⟨_, hi⟩⟩
    · intro h
      rcases h with ⟨code, text, data, he, hi⟩ | ⟨_, he, _⟩
      · obtain ⟨i, hi⟩ := i32_accepts.mpr hi
        cases he
        refine ⟨⟨i, text, _⟩, _, ⟨rfl, rfl⟩, ⟨_, ?_, (i32_collapse code).trans hi⟩, ?_, rfl⟩
        · simp [Entries.get_cons]
        · simp [Entries.get_cons, Json.collapse]
      · cases he
  | _ => simp [Json.collapse, structFields, IsResponseError]

theorem idRead_iff {member : Option Json} :
    (∃ id, IdRead member id) ↔ ∀ id, member = some id → id = .null ∨ IsRequestId id := by
  constructor
  · rintro ⟨_, h⟩ id rfl
    cases h with
    | null => exact .inl rfl
    | id h => exact .inr (requestId_accepts.mp ⟨_, h⟩)
  · intro h
    rcases member with _ | j
    · exact ⟨none, .absent⟩
    · rcases h j rfl with rfl | hj
      · exact ⟨none, .null⟩
      · obtain ⟨i, hi⟩ := requestId_accepts.mpr hj
        exact ⟨some i, .id hi⟩

theorem bodyRead_iff {result error : Option Json} :
    (∃ body, BodyRead result error body) ↔
      (∃ e, error = some e ∧ IsResponseError e) ∨
      (error = none ∨ error = some .null) ∧ result ≠ none := by
  constructor
  · intro hall
    obtain ⟨_, h | h⟩ := hall
    · exact .inl ⟨_, rfl, responseError_accepts.mp ⟨_, h⟩⟩
    · exact .inr ⟨h, Option.some_ne_none _⟩
  · intro hall
    rcases hall with ⟨e, rfl, he⟩ | ⟨herror, hresult⟩
    · obtain ⟨err, h⟩ := responseError_accepts.mpr he
      exact ⟨_, .error h⟩
    · obtain ⟨j, rfl⟩ := Option.ne_none_iff_exists'.mp hresult
      exact ⟨_, .success herror⟩

theorem request_accepts {v : Json} :
    (∃ r, Request.deserialize v = .ok r) ↔ RequestArray v ∨ RequestObject v := by
  simp only [request_eq_ok, structFields_eq_ok]
  constructor
  · intro h
    obtain ⟨r, _, ⟨members, rfl, hu, rfl⟩ | ⟨items, rfl, hlen, rfl⟩, hj, ⟨i, hi, hid⟩, hm, -⟩ := h
    · rw [get_eq_member hu (by simp)] at hj hi hm
      exact .inr ⟨members, rfl, hu, hj, ⟨i, hi, requestId_accepts.mp ⟨_, hid⟩⟩, _, hm⟩
    · match items, hlen with
      | [jsonrpc, id, method, params], _ =>
        simp [Entries.get_cons] at hj hi hm
        subst hj hi hm
        exact .inl ⟨_, _, _, rfl, requestId_accepts.mp ⟨_, hid⟩⟩
  · intro h
    rcases h with ⟨id, method, params, rfl, hid⟩ | ⟨members, rfl, hu, hj, ⟨id, hi, hid⟩, method, hm⟩
    · obtain ⟨i, hid⟩ := requestId_accepts.mpr hid
      refine ⟨⟨i, method, _⟩, _, .inr ⟨_, rfl, rfl, rfl⟩, ?_, ⟨id, ?_, hid⟩, ?_, rfl⟩ <;>
        simp [Entries.get_cons, jsonrpcVersion]
    · obtain ⟨i, hid⟩ := requestId_accepts.mpr hid
      rw [← get_eq_member hu (by simp)] at hj hi hm
      exact ⟨⟨i, method, _⟩, _, .inl ⟨members, rfl, hu, rfl⟩, hj, ⟨id, hi, hid⟩, hm, rfl⟩

theorem response_accepts {v : Json} :
    (∃ r, Response.deserialize v = .ok r) ↔ ResponseObject v := by
  simp only [response_eq_ok]
  constructor
  · intro h
    obtain ⟨⟨id, body⟩, members, rfl, hj, hi, hb⟩ := h
    refine ⟨members, rfl, hj, idRead_iff.mp ⟨id, hi⟩, bodyRead_iff.mp ⟨body, hb⟩⟩
  · intro h
    obtain ⟨members, rfl, hj, hi, hb⟩ := h
    obtain ⟨id, hi⟩ := idRead_iff.mpr hi
    obtain ⟨body, hb⟩ := bodyRead_iff.mpr hb
    exact ⟨⟨id, body⟩, members, rfl, hj, hi, hb⟩

theorem notification_accepts {v : Json} :
    (∃ n, Notification.deserialize v = .ok n) ↔ NotificationArray v ∨ NotificationObject v := by
  simp only [notification_eq_ok, structFields_eq_ok]
  constructor
  · intro h
    obtain ⟨n, _, ⟨members, rfl, hu, rfl⟩ | ⟨items, rfl, hlen, rfl⟩, hj, hm, -⟩ := h
    · rw [get_eq_member hu (by simp)] at hj hm
      exact .inr ⟨members, rfl, hu, hj, _, hm⟩
    · match items, hlen with
      | [jsonrpc, method, params], _ =>
        simp [Entries.get_cons] at hj hm
        subst hj hm
        exact .inl ⟨_, _, rfl⟩
  · intro h
    rcases h with ⟨method, params, rfl⟩ | ⟨members, rfl, hu, hj, method, hm⟩
    · refine ⟨⟨method, _⟩, _, .inr ⟨_, rfl, rfl, rfl⟩, ?_, ?_, rfl⟩ <;>
        simp [Entries.get_cons, jsonrpcVersion]
    · rw [← get_eq_member hu (by simp)] at hj hm
      exact ⟨⟨method, _⟩, _, .inl ⟨members, rfl, hu, rfl⟩, hj, hm, rfl⟩

end Accepted

theorem has_object {v : Json} {name : String} (h : v.Has name) : ∃ members, v = .object members := by
  cases v with
  | object members => exact ⟨members, rfl⟩
  | _ => exact absurd rfl h

theorem has_of_member {v j : Json} {name : String} (h : v.member name = some j) : v.Has name := by
  rw [Json.Has, h]
  exact Option.some_ne_none j

section Misread

variable {v : Json}

theorem not_sound_of_requestArray (h : RequestArray v) : ¬ Sound v := by
  intro hsound
  obtain ⟨r, hr⟩ := request_accepts.mpr (.inl h)
  obtain ⟨⟨members, rfl⟩, -⟩ := hsound (.request r) (message_eq_ok.mpr hr)
  obtain ⟨_, _, _, he, _⟩ := h
  cases he

theorem not_sound_of_notificationArray (h : NotificationArray v) : ¬ Sound v := by
  intro hsound
  obtain ⟨n, hn⟩ := notification_accepts.mpr (.inl h)
  obtain ⟨method, params, rfl⟩ := h
  have hreq : ∀ r, Request.deserialize (.array [.string "2.0", .string method, params]) ≠ .ok r := by
    intro r hr
    rcases request_accepts.mp ⟨r, hr⟩ with ⟨_, _, _, he, _⟩ | ⟨_, he, _⟩ <;> simp at he
  have hresp : ∀ r, Response.deserialize (.array [.string "2.0", .string method, params]) ≠ .ok r := by
    intro r hr
    obtain ⟨_, he, _⟩ := response_accepts.mp ⟨r, hr⟩
    simp at he
  obtain ⟨⟨members, he⟩, -⟩ := hsound (.notification n) (message_eq_ok.mpr ⟨hreq, hresp, hn⟩)
  cases he

theorem request_rejects (hid : v.Has "id") (hreq : ¬ RequestObject v) :
    ∀ r, Request.deserialize v ≠ .ok r := by
  intro r hr
  obtain ⟨members, rfl⟩ := has_object hid
  rcases request_accepts.mp ⟨r, hr⟩ with ⟨_, _, _, he, _⟩ | h
  · cases he
  · exact hreq h

/-- An object with an id and a method that is no request must not be decoded at all. -/
theorem not_sound_of_object (hid : v.Has "id") (hmethod : v.Has "method") (hreq : ¬ RequestObject v)
    (hother : ResponseObject v ∨ NotificationObject v) : ¬ Sound v := by
  intro hsound
  have hreject := request_rejects hid hreq
  by_cases hresp : ResponseObject v
  · obtain ⟨r, hr⟩ := response_accepts.mpr hresp
    obtain ⟨-, -, -, h⟩ := hsound (.response r) (message_eq_ok.mpr ⟨hreject, hr⟩)
    obtain ⟨_, he⟩ := h hid hmethod
    cases he
  · obtain ⟨n, hn⟩ := notification_accepts.mpr (.inr (hother.resolve_left hresp))
    have hr : ∀ r, Response.deserialize v ≠ .ok r := fun r hr ↦
      hresp (response_accepts.mp ⟨r, hr⟩)
    obtain ⟨-, -, -, h⟩ := hsound (.notification n) (message_eq_ok.mpr ⟨hreject, hr, hn⟩)
    obtain ⟨_, he⟩ := h hid hmethod
    cases he

theorem misread_of_object (hreject : ∀ r, Request.deserialize v ≠ .ok r)
    (hother : ResponseObject v ∨ NotificationObject v) (hid : v.Has "id") (hmethod : v.Has "method") :
    Misread v := by
  refine .inr (.inr ⟨hid, hmethod, fun h ↦ ?_, hother⟩)
  obtain ⟨r, hr⟩ := request_accepts.mpr (.inr h)
  exact hreject r hr

end Misread

/-- The rules hold for a document exactly when it is not one of those that are misread. -/
theorem sound_iff_not_misread (v : Json) : Sound v ↔ ¬ Misread v := by
  constructor
  · intro hsound hall
    rcases hall with h | h | ⟨hid, hmethod, hreq, hother⟩
    · exact not_sound_of_requestArray h hsound
    · exact not_sound_of_notificationArray h hsound
    · exact not_sound_of_object hid hmethod hreq hother hsound
  · intro hmis m hm
    cases m with
    | request r =>
      rcases request_accepts.mp ⟨r, message_eq_ok.mp hm⟩ with h | h
      · exact absurd (.inl h) hmis
      · obtain ⟨members, rfl, -, hj, ⟨_, hi, -⟩, _, hmethod⟩ := h
        exact ⟨⟨members, rfl⟩, hj, ⟨has_of_member hi, has_of_member hmethod⟩, fun _ _ ↦ ⟨r, rfl⟩⟩
    | response r =>
      obtain ⟨hreject, hr⟩ := message_eq_ok.mp hm
      have hresp := response_accepts.mp ⟨r, hr⟩
      have hmis := fun hid hmethod ↦ hmis (misread_of_object hreject (.inl hresp) hid hmethod)
      obtain ⟨members, rfl, hj, -, hbody⟩ := hresp
      refine ⟨⟨members, rfl⟩, hj, ?_, fun hid hmethod ↦ (hmis hid hmethod).elim⟩
      rcases hbody with ⟨e, he, -⟩ | ⟨-, hresult⟩
      · exact .inr (has_of_member he)
      · exact .inl hresult
    | notification n =>
      obtain ⟨hreject, -, hn⟩ := message_eq_ok.mp hm
      rcases notification_accepts.mp ⟨n, hn⟩ with h | hnotif
      · exact absurd (.inr (.inl h)) hmis
      · have hmis := fun hid hmethod ↦ hmis (misread_of_object hreject (.inr hnotif) hid hmethod)
        obtain ⟨members, rfl, -, hj, _, hmethod⟩ := hnotif
        have hmethod := has_of_member hmethod
        exact ⟨⟨members, rfl⟩, hj, ⟨hmethod, fun hid ↦ hmis hid hmethod⟩,
          fun hid hmethod ↦ (hmis hid hmethod).elim⟩

/-- A request whose id is one beyond `i32::MAX` becomes a notification that nobody answers. -/
theorem not_sound_of_large_id :
    ∃ v, v = .object [("id", .number (.posInt ⟨2147483648, by decide⟩)),
        ("jsonrpc", .string "2.0"), ("method", .string "textDocument/hover")] ∧ IsValue v ∧
      Message.deserialize v = .ok (.notification ⟨"textDocument/hover", none⟩) ∧ ¬ Sound v := by
  refine ⟨_, rfl, ?_, rfl, fun h ↦ ?_⟩
  · refine .object (by decide) fun p hp ↦ ?_
    simp only [List.mem_cons, List.not_mem_nil, or_false] at hp
    rcases hp with rfl | rfl | rfl
    · exact .number _
    · exact .string _
    · exact .string _
  · obtain ⟨-, -, -, h⟩ := h _ rfl
    obtain ⟨_, he⟩ := h (by simp [Json.Has, Json.member, Entries.get_cons])
      (by simp [Json.Has, Json.member, Entries.get_cons])
    exact nomatch he

end Discrimination

end LspServerTokio
