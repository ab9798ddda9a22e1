import LspServerTokio.Message

namespace LspServerTokio.Grammar

open Foundation

section Except

variable {ε α β : Type}

theorem bind_eq_ok {x : Except ε α} {f : α → Except ε β} {b : β} :
    x >>= f = .ok b ↔ ∃ a, x = .ok a ∧ f a = .ok b := by
  cases x <;> simp [bind, Except.bind]

theorem map_eq_ok {x : Except ε α} {f : α → β} {b : β} :
    x.map f = .ok b ↔ ∃ a, x = .ok a ∧ f a = b := by
  cases x <;> simp [Except.map]

theorem pure_eq_ok {a b : α} : (pure a : Except ε α) = .ok b ↔ a = b := by
  simp [pure, Except.pure]

end Except

section Fields

theorem stringDeserialize_eq_ok {j : Json} {s : String} :
    stringDeserialize j = .ok s ↔ j = .string s := by
  cases j <;> simp [stringDeserialize]

theorem i32Deserialize_eq_ok {j : Json} {i : I32} :
    i32Deserialize j = .ok i ↔ ∃ n, j = .number n ∧ n.asInteger = some i.val := by
  cases j with
  | number n =>
    have h : n.asInteger.bind I32.tryFrom = some i ↔ n.asInteger = some i.val := by
      simp only [Option.bind_eq_some_iff, I32.tryFrom_eq_some, exists_eq_right]
    simp only [i32Deserialize, Json.number.injEq, exists_eq_left', ← h]
    split <;> simp [*]
  | _ => simp [i32Deserialize]

theorem required_eq_ok {α : Type} {read : Json → Except SerdeError α} {field : Option Json} {a : α} :
    required read field = .ok a ↔ ∃ j, field = some j ∧ read j = .ok a := by
  cases field <;> simp [required]

theorem validateJsonrpcField_eq_ok {jsonrpc : String} {u : Unit} :
    validateJsonrpcField jsonrpc = .ok u ↔ jsonrpc = jsonrpcVersion := by
  unfold validateJsonrpcField
  split_ifs with h <;> simp [h]

theorem structFields_eq_ok {names : List String} {j : Json} {field : String → Option Json} :
    structFields names j = .ok field ↔
      (∃ members, j = .object members ∧ Unique names members ∧ field = Entries.get members) ∨
      (∃ items, j = .array items ∧ items.length = names.length ∧
        field = Entries.get (names.zip items)) := by
  cases j with
  | object members =>
    by_cases h : Unique names members
    · rw [structFields, if_pos h]
      simp [h, eq_comm]
    · rw [structFields, if_neg h]
      simp [h]
  | array items =>
    by_cases h : items.length = names.length
    · rw [structFields, if_pos h]
      simp [h, eq_comm]
    · rw [structFields, if_neg h]
      simp [h]
  | _ => simp [structFields]

theorem structFields_collapse (names : List String) (members : List (String × Json)) :
    structFields names (Json.object members).collapse =
      .ok fun name ↦ (Entries.get members.reverse name).map Json.collapse := by
  have hu : Unique names (Entries.collect (Json.collapseMembers members)) :=
    fun name _ ↦ Entries.length_filter_le_one (Entries.sorted_collect _) name
  rw [Json.collapse, structFields, if_pos hu, Except.ok.injEq]
  funext name
  rw [Entries.get_collect, Json.collapseMembers_eq_map, ← List.map_reverse]
  exact (Entries.get_map_value Json.collapse _ _).symm

end Fields

section Accepts

theorem requestId_eq_ok {j : Json} {id : RequestId} :
    RequestId.deserialize j = .ok id ↔
      (∃ i, i32Deserialize j = .ok i ∧ id = .integer i) ∨ (∃ s, j = .string s ∧ id = .string s) := by
  unfold RequestId.deserialize
  rcases h : i32Deserialize j with _ | i
  · simp only [map_eq_ok, stringDeserialize_eq_ok, reduceCtorEq, false_and, exists_false, false_or]
    exact exists_congr fun s ↦ and_congr_right fun _ ↦ eq_comm
  · obtain ⟨n, rfl, -⟩ := i32Deserialize_eq_ok.mp h
    simp [eq_comm]

theorem requestId_ne_null {id : RequestId} : RequestId.deserialize .null ≠ .ok id := by
  simp [requestId_eq_ok, i32Deserialize]

/-- A document of a `Request`, whichever way its fields are found. -/
theorem request_eq_ok {j : Json} {r : Request} :
    Request.deserialize j = .ok r ↔
      ∃ field, structFields ["jsonrpc", "id", "method", "params"] j = .ok field ∧
        field "jsonrpc" = some (.string jsonrpcVersion) ∧
        (∃ i, field "id" = some i ∧ RequestId.deserialize i = .ok r.id) ∧
        field "method" = some (.string r.method) ∧ r.params = optionValue (field "params") := by
  obtain ⟨id, method, params⟩ := r
  simp only [Request.deserialize, Request.Repr.deserialize, bind_eq_ok, pure_eq_ok, required_eq_ok,
    stringDeserialize_eq_ok, exists_eq_right, validateJsonrpcField_eq_ok, Request.mk.injEq]
  constructor
  · intro h
    obtain ⟨_, ⟨field, hf, _, hj, _, hi, _, hm, rfl⟩, _, hv, rfl, rfl, rfl⟩ := h
    exact ⟨field, hf, hv ▸ hj, hi, hm, rfl⟩
  · intro h
    obtain ⟨field, hf, hj, hi, hm, rfl⟩ := h
    exact ⟨_, ⟨field, hf, _, hj, _, hi, _, hm, rfl⟩, (), rfl, rfl, rfl, rfl⟩

theorem notification_eq_ok {j : Json} {n : Notification} :
    Notification.deserialize j = .ok n ↔
      ∃ field, structFields ["jsonrpc", "method", "params"] j = .ok field ∧
        field "jsonrpc" = some (.string jsonrpcVersion) ∧
        field "method" = some (.string n.method) ∧ n.params = optionValue (field "params") := by
  obtain ⟨method, params⟩ := n
  simp only [Notification.deserialize, Notification.Repr.deserialize, bind_eq_ok, pure_eq_ok,
    required_eq_ok, stringDeserialize_eq_ok, exists_eq_right, validateJsonrpcField_eq_ok,
    Notification.mk.injEq]
  constructor
  · intro h
    obtain ⟨_, ⟨field, hf, _, hj, _, hm, rfl⟩, _, hv, rfl, rfl⟩ := h
    exact ⟨field, hf, hv ▸ hj, hm, rfl⟩
  · intro h
    obtain ⟨field, hf, hj, hm, rfl⟩ := h
    exact ⟨_, ⟨field, hf, _, hj, _, hm, rfl⟩, (), rfl, rfl, rfl⟩

theorem responseError_eq_ok {j : Json} {e : ResponseError} :
    ResponseError.deserialize j = .ok e ↔
      ∃ field, structFields ["code", "message", "data"] j = .ok field ∧
        (∃ c, field "code" = some c ∧ i32Deserialize c = .ok e.code) ∧
        field "message" = some (.string e.message) ∧ e.data = optionValue (field "data") := by
  obtain ⟨code, message, data⟩ := e
  simp only [ResponseError.deserialize, bind_eq_ok, pure_eq_ok, required_eq_ok,
    stringDeserialize_eq_ok, exists_eq_right, ResponseError.mk.injEq]
  constructor
  · intro h
    obtain ⟨field, hf, _, hc, _, hm, rfl, rfl, rfl⟩ := h
    exact ⟨field, hf, hc, hm, rfl⟩
  · intro h
    obtain ⟨field, hf, hc, hm, rfl⟩ := h
    exact ⟨field, hf, _, hc, _, hm, rfl, rfl, rfl⟩

end Accepts

section Response

theorem isNull_deserialize {j : Json} : (Value.deserialize j).isNull = true ↔ j = .null := by
  cases j <;> simp [Value.deserialize, Value.isNull, Json.collapse]

theorem requestId_collapse (j : Json) :
    RequestId.deserialize j.collapse = RequestId.deserialize j := by
  cases j <;> rfl

theorem i32_collapse (j : Json) : i32Deserialize j.collapse = i32Deserialize j := by
  cases j <;> rfl

theorem collapse_eq_string {j : Json} {s : String} : j.collapse = .string s ↔ j = .string s := by
  cases j <;> simp [Json.collapse]

theorem optionValue_collapse (field : Option Json) :
    optionValue (field.map Json.collapse) = optionValue field := by
  rcases field with _ | j
  · rfl
  · have he : Value.deserialize j.collapse = Value.deserialize j :=
      Value.ext (Json.collapse_of_isValue j.isValue_collapse)
    cases j <;> first | rfl | exact congrArg some he

theorem asStr_deserialize {member : Option Json} {s : String} :
    (member.map Value.deserialize).bind Value.asStr = some s ↔ member = some (.string s) := by
  rcases member with _ | j
  · simp
  · cases j <;> simp [Value.deserialize, Value.asStr, Json.collapse]

theorem responseError_ne_null {e : ResponseError} : ResponseError.deserialize .null ≠ .ok e := by
  simp [responseError_eq_ok, structFields]

inductive IdRead : Option Json → Option RequestId → Prop
  | absent : IdRead none none
  | null : IdRead (some .null) none
  | id {j : Json} {i : RequestId} : RequestId.deserialize j = .ok i → IdRead (some j) (some i)

/-- What the members `result` and `error` say: an error that is not null decides, without one the
result must be there. -/
inductive BodyRead : Option Json → Option Json → ResponseBody → Prop
  | error {result : Option Json} {j : Json} {e : ResponseError} :
      ResponseError.deserialize j.collapse = .ok e → BodyRead result (some j) (.error e)
  | success {j : Json} {error : Option Json} : error = none ∨ error = some .null →
      BodyRead (some j) error (.success (Value.deserialize j))

theorem deserializeId_eq_ok {member : Option Json} {id : Option RequestId} :
    Response.deserializeId (member.map Value.deserialize) = .ok id ↔ IdRead member id := by
  rcases member with _ | j
  · simp only [Option.map_none, Response.deserializeId, Except.ok.injEq]
    exact ⟨fun h ↦ h ▸ .absent, fun h ↦ by cases h; rfl⟩
  · simp only [Option.map_some, Response.deserializeId]
    by_cases hj : j = .null
    · rw [if_pos (isNull_deserialize.mpr hj), Except.ok.injEq]
      subst hj
      constructor
      · rintro rfl
        exact .null
      · intro hall
        rcases hall with _ | _ | h
        · rfl
        · exact absurd h requestId_ne_null
    · rw [if_neg (isNull_deserialize.not.mpr hj), map_eq_ok]
      change (∃ a, RequestId.deserialize j.collapse = .ok a ∧ some a = id) ↔ _
      rw [requestId_collapse]
      constructor
      · intro hall
        obtain ⟨i, hi, rfl⟩ := hall
        exact .id hi
      · intro hall
        rcases hall with _ | _ | h
        · exact absurd rfl hj
        · exact ⟨_, h, rfl⟩

theorem deserializeBody_eq_ok {result error : Option Json} {body : ResponseBody}
    (hpresent : result.isSome ∨ error.isSome) :
    Response.deserializeBody (result.map Value.deserialize) (error.map Value.deserialize) = .ok body ↔
      BodyRead result error body := by
  rcases error with _ | e
  · obtain ⟨j, rfl⟩ := Option.isSome_iff_exists.mp (hpresent.resolve_right (by simp))
    simp only [Option.map_none, Option.map_some, Response.deserializeBody, Option.isSome_none,
      Bool.false_eq_true, if_false, Option.getD_some, Except.ok.injEq]
    exact ⟨fun h ↦ h ▸ .success (.inl rfl), fun h ↦ by cases h; rfl⟩
  · simp only [Option.map_some, Response.deserializeBody, Option.isSome_some, if_true,
      Option.getD_some, Option.isSome_map]
    by_cases he : e = .null
    · subst he
      have hn : (Value.deserialize .null).isNull = true := rfl
      rcases result with _ | j
      · simp only [hn, Option.isSome_none, Bool.and_false, Bool.false_eq_true, if_false, if_true]
        refine ⟨fun h ↦ (nomatch h), fun h ↦ ?_⟩
        cases h with
        | error h => exact absurd h responseError_ne_null
      · simp only [hn, Option.isSome_some, Bool.and_true, if_true, Option.map_some,
          Option.getD_some, Except.ok.injEq]
        refine ⟨fun h ↦ h ▸ .success (.inr rfl), fun h ↦ ?_⟩
        cases h with
        | error h => exact absurd h responseError_ne_null
        | success => rfl
    · have hn : (Value.deserialize e).isNull = false := by
        simpa using isNull_deserialize.not.mpr he
      simp only [hn, Bool.false_and, Bool.false_eq_true, if_false, map_eq_ok]
      constructor
      · intro hall
        obtain ⟨err, h, rfl⟩ := hall
        exact .error h
      · intro h
        cases h with
        | error h => exact ⟨_, h, rfl⟩
        | success h => simp [he] at h

/-- A document of a `Response`. Of a member that occurs twice the last one is read. -/
theorem response_eq_ok {j : Json} {r : Response} :
    Response.deserialize j = .ok r ↔
      ∃ members, j = .object members ∧
        Entries.get members.reverse "jsonrpc" = some (.string jsonrpcVersion) ∧
        IdRead (Entries.get members.reverse "id") r.id ∧
        BodyRead (Entries.get members.reverse "result") (Entries.get members.reverse "error")
          r.body := by
  cases j with
  | object members =>
    obtain ⟨obj, hobj, hget⟩ := Value.asObject_deserialize members
    obtain ⟨id, body⟩ := r
    simp only [Response.deserialize, hobj, hget, Option.isSome_map, Json.object.injEq,
      exists_eq_left']
    generalize Entries.get members.reverse "jsonrpc" = jsonrpc
    generalize Entries.get members.reverse "id" = idVal
    generalize Entries.get members.reverse "result" = result
    generalize Entries.get members.reverse "error" = error
    by_cases hpresent : result.isSome ∨ error.isSome
    · rw [if_neg (by cases result <;> cases error <;> simp_all)]
      rcases hs : (jsonrpc.map Value.deserialize).bind Value.asStr with _ | s
      · refine ⟨fun h ↦ (nomatch h), fun ⟨hj, _, _⟩ ↦ ?_⟩
        rw [asStr_deserialize.mpr hj] at hs
        exact nomatch hs
      · simp only [bind_eq_ok, pure_eq_ok, validateJsonrpcField_eq_ok, deserializeId_eq_ok,
          deserializeBody_eq_ok hpresent, asStr_deserialize.mp hs, Option.some.injEq,
          Json.string.injEq, Response.mk.injEq]
        constructor
        · intro hall
          obtain ⟨_, hv, _, hi, _, hb, rfl, rfl⟩ := hall
          exact ⟨hv, hi, hb⟩
        · intro hall
          obtain ⟨hv, hi, hb⟩ := hall
          exact ⟨(), hv, id, hi, body, hb, rfl, rfl⟩
    · rw [if_pos (by simpa [not_or] using hpresent)]
      rw [not_or] at hpresent
      refine ⟨fun h ↦ (nomatch h), fun ⟨_, _, hbody⟩ ↦ ?_⟩
      cases hbody <;> simp at hpresent
  | _ => simp [Response.deserialize, Value.deserialize, Json.collapse, Value.asObject]

end Response

/-- An earlier variant is never passed over for a later one. -/
theorem message_eq_ok {j : Json} {m : Message} :
    Message.deserialize j = .ok m ↔
      match m with
      | .request r => Request.deserialize j = .ok r
      | .response r => (∀ q, Request.deserialize j ≠ .ok q) ∧ Response.deserialize j = .ok r
      | .notification n => (∀ q, Request.deserialize j ≠ .ok q) ∧
          (∀ r, Response.deserialize j ≠ .ok r) ∧ Notification.deserialize j = .ok n := by
  unfold Message.deserialize
  rcases Request.deserialize j with _ | q
  · rcases Response.deserialize j with _ | r
    · rcases Notification.deserialize j with _ | n <;> cases m <;> simp
    · cases m <;> simp
  · cases m <;> simp

end LspServerTokio.Grammar
