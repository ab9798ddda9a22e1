import LspServerTokio.Foundation.Entries
import Mathlib.Data.String.Basic
import Mathlib.Algebra.Order.Ring.Int

namespace LspServerTokio

open Foundation

abbrev I32 := {n : ℤ // -2 ^ 31 ≤ n ∧ n < 2 ^ 31}

/-- `i32::try_from` -/
def I32.tryFrom (n : ℤ) : Option I32 := if h : -2 ^ 31 ≤ n ∧ n < 2 ^ 31 then some ⟨n, h⟩ else none

@[simp] theorem I32.tryFrom_val (n : I32) : I32.tryFrom n.val = some n := dif_pos n.property

theorem I32.tryFrom_eq_some {n : ℤ} {i : I32} : I32.tryFrom n = some i ↔ n = i.val := by
  constructor
  · intro h
    unfold I32.tryFrom at h
    split_ifs at h
    cases h
    rfl
  · rintro rfl
    exact I32.tryFrom_val i

/-- The bit patterns of the `f64` values that are neither infinite nor NaN. -/
abbrev FiniteF64 := {bits : UInt64 // (bits >>> 52) &&& 0x7FF ≠ 0x7FF}

/-- `serde_json::Number`: an integer is kept as `u64` when it is not negative and as `i64` when
it is, everything else as a finite `f64`. -/
inductive Number
  | posInt (n : {n : ℕ // n < 2 ^ 64})
  | negInt (n : {n : ℤ // -2 ^ 63 ≤ n ∧ n < 0})
  | float (x : FiniteF64)
  deriving DecidableEq

namespace Number

def asInteger : Number → Option ℤ
  | .posInt n => some n.val
  | .negInt n => some n.val
  | .float _ => none

def asI64 : Number → Option ℤ
  | .posInt n => if n.val < 2 ^ 63 then some n.val else none
  | .negInt n => some n.val
  | .float _ => none

def ofI32 (n : I32) : Number :=
  if h : 0 ≤ n.val then .posInt ⟨n.val.toNat, by have := n.property; omega⟩
  else .negInt ⟨n.val, by have := n.property; omega⟩

@[simp] theorem asInteger_ofI32 (n : I32) : (ofI32 n).asInteger = some n.val := by
  unfold ofI32
  split_ifs with h
  · exact congrArg some (Int.toNat_of_nonneg h)
  · rfl

end Number

/-- A JSON document as serde's visitors see it: the members of an object in the order of the
text, a repeated name included. -/
inductive Json
  | null
  | bool (b : Bool)
  | number (n : Number)
  | string (s : String)
  | array (items : List Json)
  | object (members : List (String × Json))

/-- A document that `serde_json::Value` can hold. Its objects are `BTreeMap`s. -/
inductive IsValue : Json → Prop
  | null : IsValue .null
  | bool (b : Bool) : IsValue (.bool b)
  | number (n : Number) : IsValue (.number n)
  | string (s : String) : IsValue (.string s)
  | array {items : List Json} : (∀ j ∈ items, IsValue j) → IsValue (.array items)
  | object {members : List (String × Json)} : Entries.Sorted members →
      (∀ p ∈ members, IsValue p.2) → IsValue (.object members)

namespace Json

mutual

/-- What `Value::deserialize` makes of a document: of members with one name the last one stays. -/
def collapse : Json → Json
  | .array items => .array (collapseItems items)
  | .object members => .object (Entries.collect (collapseMembers members))
  | .null => .null
  | .bool b => .bool b
  | .number n => .number n
  | .string s => .string s

def collapseItems : List Json → List Json
  | [] => []
  | j :: items => collapse j :: collapseItems items

def collapseMembers : List (String × Json) → List (String × Json)
  | [] => []
  | (name, j) :: members => (name, collapse j) :: collapseMembers members

end

theorem collapseItems_eq_map (items : List Json) : collapseItems items = items.map collapse := by
  induction items with
  | nil => rfl
  | cons j items ih => rw [collapseItems, ih, List.map_cons]

theorem collapseMembers_eq_map (members : List (String × Json)) :
    collapseMembers members = members.map fun p ↦ (p.1, p.2.collapse) := by
  induction members with
  | nil => rfl
  | cons p members ih => rw [collapseMembers, ih, List.map_cons]

mutual

theorem isValue_collapse : ∀ j : Json, IsValue j.collapse
  | .null => .null
  | .bool b => .bool b
  | .number n => .number n
  | .string s => .string s
  | .array items => .array (isValue_collapseItems items)
  | .object members => .object (Entries.sorted_collect _) fun p hp ↦
      isValue_collapseMembers members p (Entries.mem_collect hp)

theorem isValue_collapseItems : ∀ items : List Json, ∀ j ∈ collapseItems items, IsValue j
  | i :: items, j, hj => by
    rw [collapseItems] at hj
    rcases List.mem_cons.mp hj with rfl | hj
    · exact isValue_collapse i
    · exact isValue_collapseItems items j hj

theorem isValue_collapseMembers : ∀ members : List (String × Json),
    ∀ p ∈ collapseMembers members, IsValue p.2
  | (name, i) :: members, p, hp => by
    rw [collapseMembers] at hp
    rcases List.mem_cons.mp hp with rfl | hp
    · exact isValue_collapse i
    · exact isValue_collapseMembers members p hp

end

theorem collapse_of_isValue {j : Json} (h : IsValue j) : j.collapse = j := by
  induction h with
  | null | bool | number | string => rfl
  | @array items _ ih =>
    rw [collapse, collapseItems_eq_map]
    exact congrArg Json.array ((List.map_congr_left ih).trans (List.map_id _))
  | @object members hs _ ih =>
    have he : members.map (fun p ↦ (p.1, p.2.collapse)) = members := by
      conv_rhs => rw [← List.map_id members]
      exact List.map_congr_left fun p hp ↦ Prod.ext rfl (ih p hp)
    rw [collapse, collapseMembers_eq_map, he, Entries.collect_of_sorted hs]

end Json

structure Value where
  json : Json
  isValue : IsValue json

namespace Value

@[ext] theorem ext {v w : Value} (h : v.json = w.json) : v = w := by
  cases v
  cases w
  cases h
  rfl

def null : Value := ⟨.null, .null⟩

def isNull (v : Value) : Bool :=
  match v.json with
  | .null => true
  | _ => false

def deserialize (j : Json) : Value := ⟨j.collapse, j.isValue_collapse⟩

@[simp] theorem deserialize_json (v : Value) : deserialize v.json = v :=
  ext (Json.collapse_of_isValue v.isValue)

def asObject (v : Value) : Option (List (String × Value)) :=
  match v with
  | ⟨.object members, h⟩ => some (members.attach.map fun p ↦
      (p.1.1, ⟨p.1.2, by cases h with | object _ h => exact h p.1 p.2⟩))
  | _ => none

def asStr (v : Value) : Option String :=
  match v.json with
  | .string s => some s
  | _ => none

def get (v : Value) (name : String) : Option Value := v.asObject.bind fun obj ↦ Entries.get obj name

theorem get_asObject {v : Value} {obj : List (String × Value)} (h : v.asObject = some obj) :
    ∃ members, v.json = .object members ∧
      ∀ name, (Entries.get obj name).map json = Entries.get members name := by
  obtain ⟨j, hj⟩ := v
  cases j with
  | object members =>
    refine ⟨members, rfl, fun name ↦ ?_⟩
    cases h
    rw [Entries.get_map_value, List.map_map]
    exact congrArg (Entries.get · name) (List.attach_map_subtype_val members)
  | _ => cases h

theorem asObject_deserialize (members : List (String × Json)) :
    ∃ obj, (deserialize (.object members)).asObject = some obj ∧
      ∀ name, Entries.get obj name = (Entries.get members.reverse name).map deserialize := by
  refine ⟨_, rfl, fun name ↦ ?_⟩
  obtain ⟨members', hm, hget⟩ := get_asObject (v := deserialize (.object members)) rfl
  cases hm
  have hinj : Function.Injective json := fun _ _ ↦ ext
  apply Option.map_injective hinj
  rw [hget, Entries.get_collect, Json.collapseMembers_eq_map, ← List.map_reverse, Option.map_map]
  exact (Entries.get_map_value Json.collapse _ _).symm

end Value

end LspServerTokio
