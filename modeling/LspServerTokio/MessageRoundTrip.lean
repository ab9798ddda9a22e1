import LspServerTokio.Grammar

namespace LspServerTokio

open Foundation Grammar

/-- The wire does not tell `Some(null)` from `None`. -/
def normalizeOption (v : Option Value) : Option Value := v.filter fun v ↦ !v.isNull

def ResponseError.normalize (e : ResponseError) : ResponseError := { e with data := normalizeOption e.data }

def ResponseBody.normalize : ResponseBody → ResponseBody
  | .success result => .success result
  | .error e => .error e.normalize

/-- A message with `params = Some(null)` and error `data = Some(null)` turned into `None`. -/
def Message.normalize : Message → Message
  | .request r => .request { r with params := normalizeOption r.params }
  | .response r => .response { r with body := r.body.normalize }
  | .notification n => .notification { n with params := normalizeOption n.params }

namespace MessageRoundTrip

theorem optionValue_some (j : Json) :
    optionValue (some j) = normalizeOption (some (Value.deserialize j)) := by
  cases j <;> rfl

theorem optionValue_map_json (v : Option Value) :
    optionValue (v.map Value.json) = normalizeOption v := by
  cases v with
  | none => rfl
  | some v => rw [Option.map_some, optionValue_some, Value.deserialize_json]

theorem normalizeOption_idem (v : Option Value) :
    normalizeOption (normalizeOption v) = normalizeOption v := by
  simp [normalizeOption, Option.filter_filter]

theorem normalizeOption_optionValue (field : Option Json) :
    normalizeOption (optionValue field) = optionValue field := by
  cases field with
  | none => rfl
  | some j => rw [optionValue_some, normalizeOption_idem]

theorem get_optional (name : String) (v : Option Value) :
    Entries.get (v.toList.map fun v ↦ (name, v.json)) name = v.map Value.json := by
  cases v with
  | none => rfl
  | some v => simp [Entries.get_cons]

theorem i32 (n : I32) : i32Deserialize (.number (.ofI32 n)) = .ok n := by
  simp [i32Deserialize]

theorem requestId (id : RequestId) : RequestId.deserialize id.serialize = .ok id := by
  rw [requestId_eq_ok]
  cases id with
  | integer n => exact .inl ⟨n, i32 n, rfl⟩
  | string s => exact .inr ⟨s, rfl, rfl⟩

theorem request (r : Request) :
    Request.deserialize r.serialize = .ok { r with params := normalizeOption r.params } := by
  rw [request_eq_ok]
  refine ⟨_, structFields_eq_ok.mpr (.inl ⟨_, rfl, ?_, rfl⟩), ?_, ⟨_, ?_, requestId r.id⟩, ?_, ?_⟩
  · cases r.params <;> simp [Unique]
  · simp [Entries.get_cons]
  · simp [Entries.get_cons]
  · simp [Entries.get_cons]
  · simp [Entries.get_cons, get_optional, optionValue_map_json]

theorem notification (n : Notification) :
    Notification.deserialize n.serialize = .ok { n with params := normalizeOption n.params } := by
  rw [notification_eq_ok]
  refine ⟨_, structFields_eq_ok.mpr (.inl ⟨_, rfl, ?_, rfl⟩), ?_, ?_, ?_⟩
  · cases n.params <;> simp [Unique]
  · simp [Entries.get_cons]
  · simp [Entries.get_cons]
  · simp [Entries.get_cons, get_optional, optionValue_map_json]

theorem responseError (e : ResponseError) :
    ResponseError.deserialize e.serialize.collapse = .ok e.normalize := by
  rw [responseError_eq_ok]
  refine ⟨_, structFields_collapse _ _, ⟨.number (.ofI32 e.code), ?_, i32 _⟩, ?_, ?_⟩
  · rcases e with ⟨code, message, _ | data⟩ <;> simp [Entries.get_cons, Json.collapse]
  · rcases e with ⟨code, message, _ | data⟩ <;>
      simp [Entries.get_cons, Json.collapse, ResponseError.normalize]
  · rw [optionValue_collapse]
    rcases e with ⟨code, message, _ | data⟩
    · simp [Entries.get_cons, ResponseError.normalize, normalizeOption, optionValue]
    · simp [Entries.get_cons, ResponseError.normalize, optionValue_some]

theorem responseId (id : Option RequestId) :
    IdRead (some ((id.map RequestId.serialize).getD .null)) id := by
  cases id with
  | none => exact .null
  | some id => exact .id (requestId id)

theorem response (r : Response) :
    Response.deserialize r.serialize = .ok { r with body := r.body.normalize } := by
  rw [response_eq_ok]
  obtain ⟨id, body⟩ := r
  refine ⟨_, rfl, ?_, ?_, ?_⟩
  · cases body <;> simp [Entries.get_cons]
  · cases body <;> simpa [Entries.get_cons] using responseId id
  · cases body with
    | success v => simpa [Entries.get_cons, ResponseBody.normalize] using
        BodyRead.success (j := v.json) (.inl rfl)
    | error e => simpa [Entries.get_cons, ResponseBody.normalize] using BodyRead.error (responseError e)

theorem request_needs_method {members : List (String × Json)}
    (h : Entries.get members "method" = none) (r : Request) :
    Request.deserialize (.object members) ≠ .ok r := by
  rw [ne_eq, request_eq_ok]
  intro hall
  obtain ⟨field, hf, -, -, hm, -⟩ := hall
  rcases structFields_eq_ok.mp hf with ⟨_, he, -, rfl⟩ | ⟨_, he, -⟩
  · cases he
    rw [h] at hm
    exact nomatch hm
  · exact nomatch he

theorem request_needs_id {members : List (String × Json)}
    (h : Entries.get members "id" = none) (r : Request) :
    Request.deserialize (.object members) ≠ .ok r := by
  rw [ne_eq, request_eq_ok]
  intro hall
  obtain ⟨field, hf, -, ⟨_, hi, -⟩, -⟩ := hall
  rcases structFields_eq_ok.mp hf with ⟨_, he, -, rfl⟩ | ⟨_, he, -⟩
  · cases he
    rw [h] at hi
    exact nomatch hi
  · exact nomatch he

theorem response_needs_body {members : List (String × Json)}
    (hr : Entries.get members.reverse "result" = none)
    (he : Entries.get members.reverse "error" = none) (r : Response) :
    Response.deserialize (.object members) ≠ .ok r := by
  rw [ne_eq, response_eq_ok]
  intro h
  obtain ⟨_, hm, -, -, hb⟩ := h
  cases hm
  rw [hr, he] at hb
  exact nomatch hb

/-- A message that is written and read back comes back in its normal form, and as the variant it
was: no earlier variant of the untagged enum accepts its document. -/
theorem message (m : Message) : Message.deserialize m.serialize = .ok m.normalize := by
  rw [message_eq_ok]
  cases m with
  | request r => exact request r
  | response r =>
    refine ⟨request_needs_method ?_, response r⟩
    rcases r with ⟨id, _ | e⟩ <;> simp [Entries.get_cons]
  | notification n =>
    refine ⟨request_needs_id ?_, response_needs_body ?_ ?_, notification n⟩
    all_goals rcases n with ⟨method, _ | params⟩ <;> simp [Entries.get_cons]

theorem normalize_bodyRead {result error : Option Json} {body : ResponseBody}
    (h : BodyRead result error body) : body.normalize = body := by
  cases h with
  | success _ => rfl
  | @error _ _ e h =>
    obtain ⟨code, message, data⟩ := e
    obtain ⟨field, -, -, -, rfl⟩ := responseError_eq_ok.mp h
    rw [ResponseBody.normalize, ResponseError.normalize, normalizeOption_optionValue]

theorem normalize_of_deserialize {j : Json} {m : Message} (h : Message.deserialize j = .ok m) :
    m.normalize = m := by
  rw [message_eq_ok] at h
  cases m with
  | request r =>
    obtain ⟨id, method, params⟩ := r
    obtain ⟨field, -, -, -, -, rfl⟩ := request_eq_ok.mp h
    rw [Message.normalize, normalizeOption_optionValue]
  | response r =>
    obtain ⟨_, -, -, -, hb⟩ := response_eq_ok.mp h.2
    rw [Message.normalize, normalize_bodyRead hb]
  | notification n =>
    obtain ⟨method, params⟩ := n
    obtain ⟨field, -, -, -, rfl⟩ := notification_eq_ok.mp h.2.2
    rw [Message.normalize, normalizeOption_optionValue]

end MessageRoundTrip

end LspServerTokio
