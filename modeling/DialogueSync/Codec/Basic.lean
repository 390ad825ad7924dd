import DialogueSync.IdMap
import DialogueSync.Json.Basic

/-!
# Wire forms

How a type is written as a JSON value and read from one. Reading an object looks at the fields the type
knows, each of which may be written at most once, and passes over all others. A required field must be
there; a field with a default may be missing; an optional field may also be null, and an absent value is
written as null. An array of the values of the fields does not stand for an object here.
-/

namespace DialogueSync

/-- A type with a JSON form. -/
class Codec (α : Type) where
  /-- The JSON form of a value. -/
  encode : α → Json
  /-- The value that a JSON value is the form of, if there is one. -/
  decode : Json → Option α

export Codec (encode decode)

namespace Codec

variable {α : Type}

/-! ### Plain values -/

/-- Free JSON stands for itself. -/
instance : Codec Json where
  encode j := j
  decode j := some j

instance : Codec String where
  encode s := .str s
  decode
    | .str s => some s
    | _ => none

instance : Codec Bool where
  encode b := .bool b
  decode
    | .bool b => some b
    | _ => none

/-- Whole numbers that fit in 64 bits with a sign. -/
instance : Codec Int64 where
  encode n := .int n.toInt
  decode
    | .int n => if Int64.minValue.toInt ≤ n ∧ n ≤ Int64.maxValue.toInt then some (Int64.ofInt n) else none
    | _ => none

/-- Whole numbers that fit in 64 bits without a sign. -/
instance : Codec UInt64 where
  encode n := .int n.toNat
  decode
    | .int n => if 0 ≤ n ∧ n < UInt64.size then some (UInt64.ofNat n.toNat) else none
    | _ => none

/-- Numbers of either kind; what is not finite is written as null. -/
instance : Codec Float where
  encode x := .ofFloat x
  decode
    | .float x => some x
    | .int n => some (Float.ofInt n)
    | _ => none

/-- The values of a list of JSON values, if each of them is the form of one. -/
def decodeAll [Codec α] (items : List Json) : Option (List α) :=
  items.mapM decode

instance [Codec α] : Codec (List α) where
  encode xs := .arr (xs.map encode)
  decode
    | .arr items => decodeAll items
    | _ => none

/-- Maps are objects; of two fields with one name the later one counts. -/
instance [Codec α] : Codec (IdMap α) where
  encode m := .obj (m.toList.map fun e => (e.1, encode e.2))
  decode
    | .obj fields => do
      let entries ← fields.mapM fun f => (decode f.2).map fun x => (f.1, x)
      return Std.ExtTreeMap.ofList entries
    | _ => none

/-- An absent value is null. -/
def encodeOption [Codec α] : Option α → Json
  | some x => encode x
  | none => .null

/-- Null is an absent value. -/
def decodeOption [Codec α] : Json → Option (Option α)
  | .null => some none
  | j => (decode j).map some

/-! ### Fields -/

/-- The fields of an object. -/
abbrev Fields := List (String × Json)

/-- The fields of a value that is an object. -/
def fields? : Json → Option Fields
  | .obj fields => some fields
  | _ => none

namespace Fields

/-- The value of a field, absent if the field is missing; nothing if the field is written twice. -/
def single? (fields : Fields) (name : String) : Option (Option Json) :=
  match fields.filter (·.1 = name) with
  | [] => some none
  | [f] => some (some f.2)
  | _ => none

/-- The value of a field that must be there. -/
def required [Codec α] (fields : Fields) (name : String) : Option α := do
  match ← fields.single? name with
  | some j => decode j
  | none => none

/-- The value of a field, or `default` if the field is missing. -/
def getD [Codec α] (fields : Fields) (name : String) (default : α) : Option α := do
  match ← fields.single? name with
  | some j => decode j
  | none => some default

/-- The value of a field that may be missing or null. -/
def optional [Codec α] (fields : Fields) (name : String) : Option (Option α) := do
  match ← fields.single? name with
  | some j => decodeOption j
  | none => some none

end Fields

/-- The field for a value that is left out when it is absent. -/
def present [Codec α] (name : String) : Option α → Fields
  | some x => [(name, encode x)]
  | none => []

end Codec

end DialogueSync
