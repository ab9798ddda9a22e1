import LspServerTokio.Grammar

namespace LspServerTokio.ResponseGrammar

open Foundation Grammar

def IsNull (member : Option Value) : Prop := member = none ∨ member = some .null

/-- The value of an `id` member that is read as an id. -/
inductive IsId : Option Value → RequestId → Prop
  | integer {v : Value} {n : Number} {i : I32} : v.json = .number n → n.asInteger = some i.val →
      IsId (some v) (.integer i)
  | string {v : Value} {s : String} : v.json = .string s → IsId (some v) (.string s)

def IsError (error : Option Value) (e : ResponseError) : Prop :=
  ∃ v, error = some v ∧ v ≠ .null ∧ ResponseError.deserialize v.json = .ok e

/-- What a response says, by the members of its object. -/
structure Reads (v : Value) (r : Response) : Prop where
  isObject : v.asObject.isSome
  jsonrpc : ∃ w, v.get "jsonrpc" = some w ∧ w.json = .string jsonrpcVersion
  id : IsNull (v.get "id") ∧ r.id = none ∨ ∃ i, IsId (v.get "id") i ∧ r.id = some i
  body : (∃ e, IsError (v.get "error") e ∧ r.body = .error e) ∨
    IsNull (v.get "error") ∧ ∃ result, v.get "result" = some result ∧ r.body = .success result

section Exclusive

variable {member : Option Value}

theorem IsId.not_isNull {i : RequestId} (h : IsId member i) : ¬ IsNull member := by
  cases h with
  | integer hv | string hv =>
    intro hn
    have hnull := Option.some.inj (hn.resolve_left (by simp))
    rw [hnull] at hv
    exact nomatch hv

theorem IsId.unique {i k : RequestId} (h : IsId member i) (h' : IsId member k) : i = k := by
  cases h with
  | integer hv hn =>
    cases h' with
    | integer hv' hn' =>
      cases hv.symm.trans hv'
      exact congrArg _ (Subtype.ext (Option.some.inj (hn.symm.trans hn')))
    | string hv' => exact nomatch hv.symm.trans hv'
  | string hv =>
    cases h' with
    | integer hv' => exact nomatch hv.symm.trans hv'
    | string hv' => exact congrArg _ (Json.string.inj (hv.symm.trans hv'))

theorem IsError.not_isNull {e : ResponseError} (h : IsError member e) : ¬ IsNull member := by
  obtain ⟨v, rfl, hv, -⟩ := h
  exact fun hn ↦ hv (Option.some.inj (hn.resolve_left (by simp)))

theorem IsError.unique {e e' : ResponseError} (h : IsError member e) (h' : IsError member e') :
    e = e' := by
  obtain ⟨v, rfl, -, he⟩ := h
  obtain ⟨w, hw, -, he'⟩ := h'
  cases hw
  exact Except.ok.inj (he.symm.trans he')

end Exclusive

section Members

variable {member : Option Json}

theorem deserialize_eq_null {j : Json} : Value.deserialize j = .null ↔ j = .null := by
  rw [← isNull_deserialize]
  constructor
  · intro h
    rw [h]
    rfl
  · intro h
    rw [isNull_deserialize.mp h]
    rfl

theorem isNull_map : IsNull (member.map Value.deserialize) ↔ member = none ∨ member = some .null := by
  cases member <;> simp [IsNull, deserialize_eq_null]

theorem isId_map {i : RequestId} :
    IsId (member.map Value.deserialize) i ↔ ∃ j, member = some j ∧ RequestId.deserialize j = .ok i := by
  rcases member with _ | j
  · refine ⟨fun h ↦ ?_, fun h ↦ ?_⟩
    · cases h
    · simp at h
  · rw [Option.map_some]
    simp only [Option.some.injEq, exists_eq_left', requestId_eq_ok]
    constructor
    · intro h
      cases h with
      | @integer v n k hv hn =>
        refine .inl ⟨k, ?_, rfl⟩
        rw [← i32_collapse, i32Deserialize_eq_ok]
        exact ⟨n, hv, hn⟩
      | string hv => exact .inr ⟨_, collapse_eq_string.mp hv, rfl⟩
    · intro h
      rcases h with ⟨k, hk, rfl⟩ | ⟨s, rfl, rfl⟩
      · rw [← i32_collapse, i32Deserialize_eq_ok] at hk
        obtain ⟨n, hv, hn⟩ := hk
        exact .integer hv hn
      · exact .string rfl

theorem idRead_iff {id : Option RequestId} :
    IdRead member id ↔ IsNull (member.map Value.deserialize) ∧ id = none ∨
      ∃ i, IsId (member.map Value.deserialize) i ∧ id = some i := by
  rw [isNull_map]
  simp only [isId_map]
  constructor
  · intro h
    cases h with
    | absent => exact .inl ⟨.inl rfl, rfl⟩
    | null => exact .inl ⟨.inr rfl, rfl⟩
    | id h => exact .inr ⟨_, ⟨_, rfl, h⟩, rfl⟩
  · intro h
    rcases h with ⟨rfl | rfl, rfl⟩ | ⟨i, ⟨j, rfl, h⟩, rfl⟩
    · exact .absent
    · exact .null
    · exact .id h

theorem bodyRead_iff {result error : Option Json} {body : ResponseBody} :
    BodyRead result error body ↔
      (∃ e, IsError (error.map Value.deserialize) e ∧ body = .error e) ∨
      IsNull (error.map Value.deserialize) ∧
        ∃ v, result.map Value.deserialize = some v ∧ body = .success v := by
  rw [isNull_map]
  constructor
  · intro h
    cases h with
    | @error _ j e h =>
      refine .inl ⟨e, ⟨_, rfl, fun hn ↦ ?_, h⟩, rfl⟩
      rw [deserialize_eq_null.mp hn] at h
      exact responseError_ne_null h
    | success h => exact .inr ⟨h, _, rfl, rfl⟩
  · intro h
    rcases h with ⟨e, ⟨v, hv, -, h⟩, rfl⟩ | ⟨hn, v, hv, rfl⟩
    · obtain ⟨j, rfl, rfl⟩ := Option.map_eq_some_iff.mp hv
      exact .error h
    · obtain ⟨j, rfl, rfl⟩ := Option.map_eq_some_iff.mp hv
      exact .success hn

end Members

theorem get_of_asObject {v : Value} {obj : List (String × Value)} (h : v.asObject = some obj)
    (name : String) : v.get name = Entries.get obj name := by
  rw [Value.get, h, Option.bind_some]

/-- The deserialiser reads exactly what the members of the object say. -/
theorem deserialize_eq_ok {j : Json} {r : Response} :
    Response.deserialize j = .ok r ↔ Reads (Value.deserialize j) r := by
  rw [response_eq_ok]
  constructor
  · intro h
    obtain ⟨members, rfl, hj, hi, hb⟩ := h
    obtain ⟨obj, hobj, hget⟩ := Value.asObject_deserialize members
    refine ⟨by simp [hobj], ?_, ?_, ?_⟩
    all_goals simp only [get_of_asObject hobj, hget]
    · exact ⟨_, congrArg _ hj, rfl⟩
    · exact idRead_iff.mp hi
    · exact bodyRead_iff.mp hb
  · intro h
    obtain ⟨obj, hobj⟩ := Option.isSome_iff_exists.mp h.isObject
    cases j with
    | object members =>
      obtain ⟨obj', hobj', hget⟩ := Value.asObject_deserialize members
      obtain ⟨w, hw, hjson⟩ := h.jsonrpc
      have hid := h.id
      have hbody := h.body
      simp only [get_of_asObject hobj', hget] at hw hid hbody
      refine ⟨members, rfl, ?_, idRead_iff.mpr hid, bodyRead_iff.mpr hbody⟩
      obtain ⟨j, hj, rfl⟩ := Option.map_eq_some_iff.mp hw
      rw [hj, collapse_eq_string.mp hjson]
    | _ => exact nomatch hobj

/-- The members `jsonrpc`, `id`, `result` and `error` decide the outcome, errors included. -/
theorem deserialize_congr {j j' : Json} {obj obj' : List (String × Value)}
    (hobj : (Value.deserialize j).asObject = some obj)
    (hobj' : (Value.deserialize j').asObject = some obj')
    (h : ∀ name ∈ ["jsonrpc", "id", "result", "error"], Entries.get obj name = Entries.get obj' name) :
    Response.deserialize j = Response.deserialize j' := by
  simp only [List.forall_mem_cons, List.not_mem_nil, false_implies, implies_true, and_true] at h
  obtain ⟨hjsonrpc, hid, hresult, herror⟩ := h
  simp only [Response.deserialize, hobj, hobj', hjsonrpc, hid, hresult, herror]

section Reads

variable {v : Value} {r : Response}

theorem exists_reads : (∃ r, Reads v r) ↔
    v.asObject.isSome ∧ (∃ w, v.get "jsonrpc" = some w ∧ w.json = .string jsonrpcVersion) ∧
      (IsNull (v.get "id") ∨ ∃ i, IsId (v.get "id") i) ∧
      ((∃ e, IsError (v.get "error") e) ∨ IsNull (v.get "error") ∧ (v.get "result").isSome) := by
  constructor
  · intro h
    obtain ⟨r, hobj, hj, hid, hbody⟩ := h
    refine ⟨hobj, hj, hid.imp (·.1) (fun ⟨i, hi, _⟩ ↦ ⟨i, hi⟩), hbody.imp (fun ⟨e, he, _⟩ ↦ ⟨e, he⟩) ?_⟩
    exact fun ⟨hn, result, hr, _⟩ ↦ ⟨hn, Option.isSome_iff_exists.mpr ⟨result, hr⟩⟩
  · intro h
    obtain ⟨hobj, hj, hid, hbody⟩ := h
    have hid' : ∃ id, IsNull (v.get "id") ∧ id = none ∨ ∃ i, IsId (v.get "id") i ∧ id = some i := by
      rcases hid with hn | ⟨i, hi⟩
      · exact ⟨none, .inl ⟨hn, rfl⟩⟩
      · exact ⟨some i, .inr ⟨i, hi, rfl⟩⟩
    obtain ⟨id, hid⟩ := hid'
    rcases hbody with ⟨e, he⟩ | ⟨hn, hr⟩
    · exact ⟨⟨id, .error e⟩, hobj, hj, hid, .inl ⟨e, he, rfl⟩⟩
    · obtain ⟨result, hr⟩ := Option.isSome_iff_exists.mp hr
      exact ⟨⟨id, .success result⟩, hobj, hj, hid, .inr ⟨hn, result, hr, rfl⟩⟩

theorem Reads.id_eq_none (h : Reads v r) : r.id = none ↔ IsNull (v.get "id") := by
  rcases h.id with ⟨hn, he⟩ | ⟨i, hi, he⟩
  · exact iff_of_true he hn
  · exact iff_of_false (by simp [he]) hi.not_isNull

theorem Reads.id_eq_some (h : Reads v r) {i : RequestId} : r.id = some i ↔ IsId (v.get "id") i := by
  rcases h.id with ⟨hn, he⟩ | ⟨k, hk, he⟩
  · exact iff_of_false (by simp [he]) fun hi ↦ hi.not_isNull hn
  · rw [he, Option.some.injEq]
    exact ⟨fun hi ↦ hi ▸ hk, fun hi ↦ hk.unique hi⟩

theorem Reads.body_eq_error (h : Reads v r) {e : ResponseError} :
    r.body = .error e ↔ IsError (v.get "error") e := by
  rcases h.body with ⟨e', he, hb⟩ | ⟨hn, result, -, hb⟩
  · rw [hb, ResponseBody.error.injEq]
    exact ⟨fun h ↦ h ▸ he, fun h ↦ he.unique h⟩
  · exact iff_of_false (by simp [hb]) fun h ↦ h.not_isNull hn

theorem Reads.body_eq_success (h : Reads v r) {result : Value} :
    r.body = .success result ↔ IsNull (v.get "error") ∧ v.get "result" = some result := by
  rcases h.body with ⟨e, he, hb⟩ | ⟨hn, result', hr, hb⟩
  · exact iff_of_false (by simp [hb]) fun h ↦ he.not_isNull h.1
  · rw [hb, hr, ResponseBody.success.injEq, Option.some.injEq, and_iff_right hn]

end Reads

/-- The documents that are read as responses, and as which. -/
theorem response_grammar (j : Json) :
    let v := Value.deserialize j
    ((∃ r, Response.deserialize j = .ok r) ↔
      v.asObject.isSome ∧ (∃ w, v.get "jsonrpc" = some w ∧ w.json = .string "2.0") ∧
        (IsNull (v.get "id") ∨ ∃ i, IsId (v.get "id") i) ∧
        ((∃ e, IsError (v.get "error") e) ∨ IsNull (v.get "error") ∧ (v.get "result").isSome)) ∧
    (∀ r, Response.deserialize j = .ok r →
      (r.id = none ↔ IsNull (v.get "id")) ∧ (∀ i, r.id = some i ↔ IsId (v.get "id") i) ∧
      (∀ e, r.body = .error e ↔ IsError (v.get "error") e) ∧
      ∀ result, r.body = .success result ↔
        IsNull (v.get "error") ∧ v.get "result" = some result) ∧
    ∀ j' obj obj', v.asObject = some obj → (Value.deserialize j').asObject = some obj' →
      (∀ name ∈ ["jsonrpc", "id", "result", "error"],
        Entries.get obj name = Entries.get obj' name) →
      Response.deserialize j = Response.deserialize j' := by
  intro v
  refine ⟨?_, fun r h ↦ ?_, fun j' obj obj' hobj hobj' h ↦ deserialize_congr hobj hobj' h⟩
  · simp only [deserialize_eq_ok]
    exact exists_reads
  · have hreads := deserialize_eq_ok.mp h
    exact ⟨hreads.id_eq_none, fun _ ↦ hreads.id_eq_some, fun _ ↦ hreads.body_eq_error,
      fun _ ↦ hreads.body_eq_success⟩

end LspServerTokio.ResponseGrammar
