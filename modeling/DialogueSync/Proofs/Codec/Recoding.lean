import DialogueSync.Proofs.Codec.Numbers
import DialogueSync.Proofs.Codec.RoundTrip

/-!
# Writing what was read

A JSON value is writable if its whole numbers fit in 64 bits and its floating-point numbers are finite. A value that
is read from one has finite numbers only, since every number in it was read from one of the JSON value. So it has a
written form from which it is read back, and writing and reading once more changes
nothing (`wireForms_roundTrip`). What is written need not be what was read: a floating-point number may come from
a whole one, and fields that were missing are written as null.
-/

namespace DialogueSync

/-- The whole numbers in the value fit in 64 bits, and the floating-point numbers are finite. -/
inductive Json.Writable : Json → Prop where
  | null : Writable .null
  | bool (b : Bool) : Writable (.bool b)
  | int {n : Int} (hmin : -2 ^ 63 ≤ n) (hmax : n < 2 ^ 64) : Writable (.int n)
  | float {x : Float} (hfinite : x.isFinite = true) : Writable (.float x)
  | str (s : String) : Writable (.str s)
  | arr {items : List Json} (hitems : ∀ j ∈ items, Writable j) : Writable (.arr items)
  | obj {fields : List (String × Json)} (hfields : ∀ f ∈ fields, Writable f.2) : Writable (.obj fields)

open Json (Writable)

namespace Codec

variable {α : Type} [Codec α] {fields : Fields} {name : String} {j : Json} {x : α}

/-! ### Where values come from -/

/-- The fields of a writable object are writable. -/
lemma writable_of_fields? (hj : j.Writable) (h : fields? j = some fields) : ∀ f ∈ fields, Writable f.2 := by
  cases hj with
  | obj hfields => exact Option.some.inj h ▸ hfields
  | _ => cases h

namespace Fields

/-- What is read from a field with a default is the default, or in the field. -/
lemma exists_of_getD {default : α} (h : fields.getD name default = some x) :
    x = default ∨ ∃ j, (name, j) ∈ fields ∧ decode j = some x := by
  obtain ⟨found, hfound, h⟩ := Option.bind_eq_some_iff.mp h
  cases found with
  | none => exact Or.inl (Option.some.inj h).symm
  | some j => exact Or.inr ⟨j, mem_of_single? hfound, h⟩

/-- What is read from a field that may be missing is in the field. -/
lemma exists_of_optional (h : fields.optional name = some (some x)) :
    ∃ j, (name, j) ∈ fields ∧ decode j = some x := by
  obtain ⟨found, hfound, h⟩ := Option.bind_eq_some_iff.mp h
  cases found with
  | none => cases h
  | some j =>
    refine ⟨j, mem_of_single? hfound, ?_⟩
    cases j with
    | null => cases h
    | _ =>
      obtain ⟨y, hy, hxy⟩ := Option.map_eq_some_iff.mp h
      rwa [← Option.some.inj hxy]

end Fields

/-- What is read from a list is read from one of its items. -/
lemma exists_of_mem_mapM {β γ : Type} {read : β → Option γ} {ys : List β} {zs : List γ} {z : γ}
    (h : ys.mapM read = some zs) (hz : z ∈ zs) : ∃ y ∈ ys, read y = some z := by
  induction ys generalizing zs with
  | nil =>
    cases h
    cases hz
  | cons y rest ih =>
    rw [List.mapM_cons] at h
    obtain ⟨first, hfirst, h⟩ := Option.bind_eq_some_iff.mp h
    obtain ⟨others, hothers, h⟩ := Option.bind_eq_some_iff.mp h
    cases h
    rcases List.mem_cons.mp hz with rfl | hz
    · exact ⟨y, List.mem_cons_self, hfirst⟩
    · obtain ⟨y', hy', hread⟩ := ih hothers hz
      exact ⟨y', List.mem_cons_of_mem y hy', hread⟩

end Codec

/-! ### Numbers that were read -/

variable {α : Type}

/-- The floating-point numbers of what is read from a writable value are finite. -/
def ReadsFinite (α : Type) [Codec α] [HasFloats α] : Prop :=
  ∀ ⦃j : Json⦄ ⦃x : α⦄, j.Writable → decode j = some x → AllFinite x

/-- A number that is read from a writable value is finite. -/
lemma isFinite_of_decode {j : Json} {x : Float} (hj : j.Writable) (h : decode j = some x) : x.isFinite = true := by
  cases hj with
  | float hfinite => exact Option.some.inj h ▸ hfinite
  | int hmin hmax => exact Option.some.inj h ▸ Numbers.isFinite_ofInt hmin hmax
  | _ => cases h

/-- Every item of a list is read from an item of the array. -/
lemma allFinite_of_mem_list [Codec α] [HasFloats α] (hα : ReadsFinite α) {j : Json} {xs : List α}
    (hj : j.Writable) (h : decode j = some xs) : ∀ x ∈ xs, AllFinite x := by
  intro x hx
  cases hj with
  | arr hitems =>
    obtain ⟨j', hj', hdecode⟩ := Codec.exists_of_mem_mapM h hx
    exact hα (hitems j' hj') hdecode
  | _ => cases h

/-- Every value of a map is read from the value of a field. -/
lemma allFinite_of_mem_values [Codec α] [HasFloats α] (hα : ReadsFinite α) {j : Json} {m : IdMap α}
    (hj : j.Writable) (h : decode j = some m) : ∀ x ∈ m.values, AllFinite x := by
  intro x hx
  obtain ⟨id, hid⟩ := mem_values_iff.mp hx
  cases hj with
  | obj hfields =>
    obtain ⟨entries, hentries, h⟩ := Option.bind_eq_some_iff.mp h
    cases h
    obtain ⟨f, hf, hread⟩ := Codec.exists_of_mem_mapM hentries (IdMap.mem_of_getElem?_ofList hid)
    obtain ⟨y, hy, hyx⟩ := Option.map_eq_some_iff.mp hread
    exact hα (hfields f hf) (hy.trans (congrArg some (Prod.mk.inj hyx).2))
  | _ => cases h

namespace Usage

/-- Usages are read with finite numbers. -/
lemma readsFinite : ReadsFinite Usage := by
  intro j u hj h
  simp only [decode, Option.bind_eq_bind, Option.bind_eq_some_iff] at h
  obtain ⟨fields, hfields, _, -, _, -, _, -, speed, hspeed, _, -, _, -, cost, hcost, h⟩ := h
  cases h
  have hwritable := Codec.writable_of_fields? hj hfields
  have hfinite : ∀ {name} {y : Option Float}, fields.optional name = some y →
      ∀ x ∈ y.toList, x.isFinite = true := by
    intro name y hy x hx
    obtain ⟨j', hj', hdecode⟩ := Codec.Fields.exists_of_optional (Option.mem_toList.mp hx ▸ hy)
    exact isFinite_of_decode (hwritable _ hj') hdecode
  intro x hx
  rcases List.mem_append.mp hx with hx | hx
  · exact hfinite hspeed x hx
  · exact hfinite hcost x hx

/-- A usage that may be missing has finite numbers if it is there. -/
lemma allFinite_of_optional {fields : Codec.Fields} {name : String} {u : Option Usage}
    (hfields : ∀ f ∈ fields, Writable f.2) (h : fields.optional name = some u) : ∀ y ∈ u.toList, AllFinite y := by
  intro y hy
  obtain ⟨j, hj, hdecode⟩ := Codec.Fields.exists_of_optional (Option.mem_toList.mp hy ▸ h)
  exact readsFinite (hfields _ hj) hdecode

end Usage

namespace Message

/-- The message that is read from writable fields has finite numbers. -/
lemma allFinite_of_decodeFields {fields : Codec.Fields} {m : Message} (hfields : ∀ f ∈ fields, Writable f.2)
    (h : decodeFields fields = some m) : AllFinite m := by
  simp only [decodeFields, Option.bind_eq_bind, Option.bind_eq_some_iff] at h
  obtain ⟨_, -, _, -, _, -, _, -, _, -, _, -, _, -, _, -, _, -, usage, husage, _, -, _, -, h⟩ := h
  cases h
  exact (allFinite_flatMap rfl).mpr (Usage.allFinite_of_optional hfields husage)

lemma readsFinite : ReadsFinite Message := by
  intro j m hj h
  obtain ⟨fields, hfields, h⟩ := Option.bind_eq_some_iff.mp h
  exact allFinite_of_decodeFields (Codec.writable_of_fields? hj hfields) h

end Message

lemma Cache.Record.readsFinite : ReadsFinite Cache.Record := by
  intro j r hj h
  simp only [decode, Option.bind_eq_bind, Option.bind_eq_some_iff] at h
  obtain ⟨fields, hfields, _, -, message, hmessage, _, -, _, -, h⟩ := h
  cases h
  refine Message.allFinite_of_decodeFields (fun f hf => ?_) hmessage
  exact Codec.writable_of_fields? hj hfields f (List.mem_of_mem_filter hf)

lemma History.readsFinite : ReadsFinite History := by
  intro j history hj h
  simp only [decode, Option.bind_eq_bind, Option.bind_eq_some_iff] at h
  obtain ⟨fields, hfields, messages, hmessages, _, -, h⟩ := h
  cases h
  refine (allFinite_flatMap rfl).mpr fun m hm => ?_
  rcases Codec.Fields.exists_of_getD hmessages with rfl | ⟨j', hj', hdecode⟩
  · obtain ⟨id, hid⟩ := mem_values_iff.mp hm
    rw [Std.ExtTreeMap.getElem?_empty] at hid
    cases hid
  · exact allFinite_of_mem_values Message.readsFinite (Codec.writable_of_fields? hj hfields _ hj') hdecode m hm

/-- An outline has no floating-point numbers at all. -/
lemma Outline.allFinite (o : Outline) : AllFinite o :=
  fun _ h => absurd h List.not_mem_nil

lemma Snapshot.readsFinite : ReadsFinite Snapshot := by
  intro j s hj h
  simp only [decode, Option.bind_eq_bind, Option.bind_eq_some_iff] at h
  obtain ⟨fields, hfields, _, -, bodies, hbodies, h⟩ := h
  cases h
  obtain ⟨j', hj', hdecode⟩ := Codec.Fields.exists_of_required hbodies
  exact (allFinite_flatMap rfl).mpr
    (allFinite_of_mem_list Message.readsFinite (Codec.writable_of_fields? hj hfields _ hj') hdecode)

lemma SaveRequest.readsFinite : ReadsFinite SaveRequest := by
  intro j r hj h
  simp only [decode, Option.bind_eq_bind, Option.bind_eq_some_iff] at h
  obtain ⟨fields, hfields, _, -, _, -, history, hhistory, _, -, h⟩ := h
  cases h
  obtain ⟨j', hj', hdecode⟩ := Codec.Fields.exists_of_required hhistory
  exact History.readsFinite (Codec.writable_of_fields? hj hfields _ hj') hdecode

lemma Delta.readsFinite : ReadsFinite Delta := by
  intro j d hj h
  simp only [decode, Option.bind_eq_bind, Option.bind_eq_some_iff] at h
  obtain ⟨fields, hfields, _, -, usage, husage, _, -, _, -, h⟩ := h
  cases h
  exact (allFinite_flatMap rfl).mpr
    (Usage.allFinite_of_optional (Codec.writable_of_fields? hj hfields) husage)

/-! ### Round trips -/

/-- Reading undoes writing where all floating-point numbers are finite, and in particular wherever a value was read
from a writable form. -/
structure RoundTrips (α : Type) [Codec α] [HasFloats α] : Prop where
  /-- A value with finite numbers is read back from its form. -/
  decode_encode : ∀ x : α, AllFinite x → decode (encode x) = some x
  /-- Writing and reading what was read changes nothing. -/
  decode_encode_of_decode : ∀ (j : Json) (x : α), j.Writable → decode j = some x → decode (encode x) = some x

/-- What is read back from its form makes the round trip. -/
lemma roundTrips_of_readsBack [Codec α] [HasFloats α] (hα : ReadsFinite α)
    (h : ∀ x : α, AllFinite x → Codec.ReadsBack id x) : RoundTrips α :=
  ⟨h, fun _ x hj hdecode => h x (hα hj hdecode)⟩

lemma SaveRequest.readsBack {r : SaveRequest} (h : AllFinite r) : Codec.ReadsBack id r := by
  have hread := decode_encode Json.reorders_id h
  rwa [List.map_id] at hread

/-- All wire forms are read back. -/
theorem wireForms_roundTrip :
    RoundTrips Usage ∧ RoundTrips Message ∧ RoundTrips History ∧ RoundTrips Outline ∧ RoundTrips Snapshot ∧
      RoundTrips Cache.Record ∧ RoundTrips SaveRequest ∧ RoundTrips Delta := by
  have hφ := Json.reorders_id
  refine ⟨?_, ?_, ?_, ?_, ?_, ?_, ?_, ?_⟩
  · exact roundTrips_of_readsBack Usage.readsFinite fun _ => Usage.readsBack hφ
  · exact roundTrips_of_readsBack Message.readsFinite fun _ => Message.readsBack hφ
  · exact roundTrips_of_readsBack History.readsFinite fun _ => History.readsBack hφ
  · exact roundTrips_of_readsBack (fun _ o _ _ => o.allFinite) fun o _ => Outline.readsBack hφ o
  · exact roundTrips_of_readsBack Snapshot.readsFinite fun _ => Snapshot.readsBack hφ
  · exact roundTrips_of_readsBack Cache.Record.readsFinite fun _ => Cache.Record.readsBack hφ
  · exact roundTrips_of_readsBack SaveRequest.readsFinite fun _ => SaveRequest.readsBack
  · exact roundTrips_of_readsBack Delta.readsFinite fun _ => Delta.readsBack hφ

/-- The form of a message with figures, where one of the floating-point numbers is written as a whole number. -/
def meteredForm : Json :=
  .obj [("id", .str "m"), ("role", .str "assistant"), ("createdAt", .int 7),
    ("usage", .obj [("promptTokens", .int 3), ("tokensPerSecond", .int 2), ("estimatedCost", .float 0.5)])]

/-- The message is read, and comes back from the form in which it is written. -/
theorem wireForms_roundTrip_metered :
    meteredForm.Writable ∧ ∃ m : Message, decode meteredForm = some m ∧ floats m = [Float.ofInt 2, 0.5] ∧
      decode (encode m) = some m := by
  have hform : meteredForm.Writable := by
    refine .obj ?_
    simp only [List.forall_mem_cons]
    refine ⟨.str _, .str _, .int (by decide) (by decide), .obj ?_, by simp⟩
    simp only [List.forall_mem_cons]
    exact ⟨.int (by decide) (by decide), .int (by decide) (by decide), .float (by decide), by simp⟩
  exact ⟨hform, _, rfl, rfl, wireForms_roundTrip.2.1.decode_encode_of_decode meteredForm _ hform rfl⟩

end DialogueSync
