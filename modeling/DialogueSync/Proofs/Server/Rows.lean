import DialogueSync.Proofs.Bodies
import DialogueSync.Server.Rows

/-!
# Rows that are read back

The row of a message is read back as that message without its children (`message_rowOf`). The column of the
metering holds a JSON value, from which every figure is read back that has a written form
(`Usage.decode_encode`). A floating-point number has none if it is not finite.
-/

namespace DialogueSync

namespace Codec

variable {α : Type} [Codec α] {name other : String} {x : Option α}

/-- A field is found under its own name only. -/
lemma filter_present (name other : String) (x : Option α) :
    (present name x).filter (·.1 = other) = if name = other then present name x else [] := by
  cases x with
  | none => simp [present]
  | some y => by_cases h : name = other <;> simp [present, h]

/-- A field that is written only if it has a value is found, or missing. -/
lemma single?_of_filter {fields : Fields} (h : fields.filter (·.1 = name) = present name x) :
    fields.single? name = some (x.map encode) := by
  unfold Fields.single?
  rw [h]
  cases x with
  | none => rfl
  | some y => rfl

/-- A field that is written only if it has a value is read like the value, or as absent. -/
lemma optional_of_filter {read : α → Option α} (hread : ∀ y, decodeOption (encode y) = some (read y))
    {fields : Fields} (h : fields.filter (·.1 = name) = present name x) :
    fields.optional name = some (x.bind read) := by
  unfold Fields.optional
  rw [single?_of_filter h]
  cases x with
  | none => rfl
  | some y => exact hread y

/-- A number that fits is read back where it may be missing. -/
lemma decodeOption_encode_int64 (n : Int64) : decodeOption (encode n) = some (some n) := by
  change Option.map some (if Int64.minValue.toInt ≤ n.toInt ∧ n.toInt ≤ Int64.maxValue.toInt
    then some (Int64.ofInt n.toInt) else none) = _
  rw [if_pos ⟨n.minValue_le_toInt, n.toInt_le⟩, Int64.ofInt_toInt, Option.map_some]

lemma decodeOption_encode_uint64 (n : UInt64) : decodeOption (encode n) = some (some n) := by
  change Option.map some (if 0 ≤ (n.toNat : Int) ∧ (n.toNat : Int) < UInt64.size
    then some (UInt64.ofNat (n.toNat : Int).toNat) else none) = _
  rw [if_pos ⟨Int.natCast_nonneg _, Int.ofNat_lt.mpr n.toNat_lt_size⟩, Int.toNat_natCast,
    UInt64.ofNat_toNat, Option.map_some]

/-- A floating-point number, if it is finite. -/
def finite? (x : Float) : Option Float :=
  if x.isFinite then some x else none

/-- What is not finite is written as if it were absent. -/
lemma decodeOption_encode_float (x : Float) : decodeOption (encode x) = some (finite? x) := by
  change decodeOption (Json.ofFloat x) = _
  unfold Json.ofFloat finite?
  split
  · rfl
  · rfl

end Codec

namespace Usage

open Codec (decodeOption_encode_float decodeOption_encode_int64 decodeOption_encode_uint64
  optional_of_filter present)

/-- The fields of a written usage. -/
def fields (u : Usage) : Codec.Fields :=
  present "promptTokens" u.promptTokens ++ present "completionTokens" u.completionTokens ++
    present "totalTokens" u.totalTokens ++ present "tokensPerSecond" u.tokensPerSecond ++
    present "timeToFirstTokenMs" u.timeToFirstToken ++ present "elapsedMs" u.elapsed ++
    present "estimatedCost" u.estimatedCost

/-- The form of a usage consists of the fields that it has. -/
lemma encode_eq (u : Usage) : encode u = .obj u.fields :=
  rfl

/-- The figures that have a written form: floating-point numbers have one if they are finite. -/
def written (u : Usage) : Usage :=
  { u with
    tokensPerSecond := u.tokensPerSecond.bind Codec.finite?
    estimatedCost := u.estimatedCost.bind Codec.finite? }

/-- A usage is read back but for the figures that have no written form. -/
theorem decode_encode (u : Usage) : decode (encode u) = some u.written := by
  have hfilter : ∀ name, u.fields.filter (·.1 = name) =
      (if "promptTokens" = name then present "promptTokens" u.promptTokens else []) ++
      (if "completionTokens" = name then present "completionTokens" u.completionTokens else []) ++
      (if "totalTokens" = name then present "totalTokens" u.totalTokens else []) ++
      (if "tokensPerSecond" = name then present "tokensPerSecond" u.tokensPerSecond else []) ++
      (if "timeToFirstTokenMs" = name then present "timeToFirstTokenMs" u.timeToFirstToken else []) ++
      (if "elapsedMs" = name then present "elapsedMs" u.elapsed else []) ++
      (if "estimatedCost" = name then present "estimatedCost" u.estimatedCost else []) := by
    intro name
    simp only [fields, List.filter_append, Codec.filter_present]
  rw [encode_eq]
  simp only [decode, Codec.fields?, Option.bind_eq_bind, Option.bind_some]
  rw [optional_of_filter (x := u.promptTokens) decodeOption_encode_uint64 (by simp [hfilter]),
    optional_of_filter (x := u.completionTokens) decodeOption_encode_uint64 (by simp [hfilter]),
    optional_of_filter (x := u.totalTokens) decodeOption_encode_uint64 (by simp [hfilter]),
    optional_of_filter (x := u.tokensPerSecond) decodeOption_encode_float (by simp [hfilter]),
    optional_of_filter (x := u.timeToFirstToken) decodeOption_encode_int64 (by simp [hfilter]),
    optional_of_filter (x := u.elapsed) decodeOption_encode_int64 (by simp [hfilter]),
    optional_of_filter (x := u.estimatedCost) decodeOption_encode_float (by simp [hfilter])]
  simp only [Option.bind_some, Option.bind_fun_some]
  rfl

end Usage

namespace Server

variable {m : Message}

/-- A role is read back from its name. -/
@[simp] lemma readRole_name (r : Role) : readRole (some r.name) = .ok r := by
  cases r <;> decide

/-- The body of the message without its list of children, which no row holds. -/
def stored (m : Message) : Message :=
  { m with children := [], usage := m.usage.map Usage.written }

/-- The row of a message is read back as that message, but for the children and for figures of the metering
that have no written form. -/
theorem message_rowOf (m : Message) : (rowOf m).message m.id = .ok (stored m) := by
  have husage : readUsage (m.usage.map encode) = .ok (m.usage.map Usage.written) := by
    cases m.usage with
    | none => rfl
    | some u =>
      rw [Option.map_some, readUsage, Usage.decode_encode]
      rfl
  unfold MessageRow.message rowOf
  rw [readRole_name, husage]
  rfl

end Server

end DialogueSync
