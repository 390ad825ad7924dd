import DialogueSync.Proofs.Codec.RoundTrip
import DialogueSync.Proofs.Json.Texts
import Mathlib.Data.List.Forall2

/-!
# Texts of wire forms

The text of a wire form is read as the form of the same value with other floating-point numbers in it, those that its
own are read as (`Snapshot.parse?_render`, `History.parse?_render`). It is the form of the value itself exactly if each
of them is read as itself.
-/

namespace DialogueSync

open Json (ReadsAs reread?)

variable {f : Float → Float}

/-! ### Other numbers -/

/-- The usage with other floating-point numbers. -/
def Usage.mapFloats (f : Float → Float) (u : Usage) : Usage :=
  { u with tokensPerSecond := u.tokensPerSecond.map f, estimatedCost := u.estimatedCost.map f }

/-- The message with other floating-point numbers. -/
def Message.mapFloats (f : Float → Float) (m : Message) : Message :=
  { m with usage := m.usage.map (Usage.mapFloats f) }

/-- The history with other floating-point numbers. -/
def History.mapFloats (f : Float → Float) (h : History) : History :=
  { h with messages := h.messages.map fun _ m => m.mapFloats f }

/-- The snapshot with other floating-point numbers. -/
def Snapshot.mapFloats (f : Float → Float) (s : Snapshot) : Snapshot :=
  { s with bodies := s.bodies.map (Message.mapFloats f) }

/-- The numbers of the usage are exchanged one by one. -/
lemma Usage.floats_mapFloats (u : Usage) : floats (u.mapFloats f) = (floats u).map f := by
  cases htokens : u.tokensPerSecond <;> cases hcost : u.estimatedCost <;>
    simp [floats, mapFloats, htokens, hcost]

lemma Message.floats_mapFloats (m : Message) : floats (m.mapFloats f) = (floats m).map f := by
  cases husage : m.usage with
  | none => simp [floats, mapFloats, husage]
  | some u => simpa [floats, mapFloats, husage] using u.floats_mapFloats

lemma Snapshot.floats_mapFloats (s : Snapshot) : floats (s.mapFloats f) = (floats s).map f := by
  change (s.bodies.map (Message.mapFloats f)).flatMap floats = (s.bodies.flatMap floats).map f
  rw [List.flatMap_map, List.map_flatMap]
  exact List.flatMap_congr fun m _ => m.floats_mapFloats

/-- A usage stays as it is if its floating-point numbers do. -/
lemma Usage.mapFloats_eq_self {u : Usage} (h : ∀ x ∈ floats u, f x = x) : u.mapFloats f = u := by
  have hmap : ∀ o : Option Float, (∀ x ∈ o.toList, f x = x) → o.map f = o := by
    intro o ho
    cases o with
    | none => rfl
    | some x => rw [Option.map_some, ho x (by simp)]
  rw [mapFloats, hmap u.tokensPerSecond fun x hx => h x (List.mem_append_left _ hx),
    hmap u.estimatedCost fun x hx => h x (List.mem_append_right _ hx)]

lemma Message.mapFloats_eq_self {m : Message} (h : ∀ x ∈ floats m, f x = x) : m.mapFloats f = m := by
  have husage : m.usage.map (Usage.mapFloats f) = m.usage := by
    cases hm : m.usage with
    | none => rfl
    | some u => rw [Option.map_some, Usage.mapFloats_eq_self fun x hx => h x (by simpa [floats, hm] using hx)]
  rw [mapFloats, husage]

/-- A history stays as it is if its floating-point numbers do. -/
lemma History.mapFloats_eq_self {h : History} (hfloats : ∀ x ∈ floats h, f x = x) : h.mapFloats f = h := by
  have hmessages : (h.messages.map fun _ m => m.mapFloats f) = h.messages := by
    refine Std.ExtTreeMap.ext_getElem? fun id => ?_
    rw [Std.ExtTreeMap.getElem?_map]
    cases hm : h.messages[id]? with
    | none => rfl
    | some m =>
      rw [Option.map_some, Message.mapFloats_eq_self fun x hx => hfloats x ?_]
      exact List.mem_flatMap.mpr ⟨m, mem_values_iff.mpr ⟨id, hm⟩, hx⟩
  rw [mapFloats, hmessages]

/-- A snapshot stays as it is exactly if its floating-point numbers do. -/
lemma Snapshot.mapFloats_eq_self_iff {s : Snapshot} : s.mapFloats f = s ↔ ∀ x ∈ floats s, f x = x := by
  constructor
  · intro hs
    have hmap : (floats s).map f = (floats s).map id := by rw [← s.floats_mapFloats, hs, List.map_id]
    exact List.map_inj_left.mp hmap
  · intro h
    have hbodies : s.bodies.map (Message.mapFloats f) = s.bodies.map id :=
      List.map_inj_left.mpr fun m hm =>
        Message.mapFloats_eq_self fun x hx => h x (List.mem_flatMap.mpr ⟨m, hm, hx⟩)
    rw [mapFloats, hbodies, List.map_id]

/-! ### Plain values -/

namespace Codec

variable {α : Type} [Codec α] {d : Nat} {fields fields' : Fields}

lemma readsAs_string (s : String) : ReadsAs d (encode s) (encode s) :=
  .str s

lemma readsAs_bool (b : Bool) : ReadsAs d (encode b) (encode b) :=
  .bool b

lemma readsAs_int64 (n : Int64) : ReadsAs d (encode n) (encode n) :=
  .int n.minValue_le_toInt (by have := n.toInt_lt; omega)

lemma readsAs_uint64 (n : UInt64) : ReadsAs d (encode n) (encode n) :=
  .int (by omega) (by have := n.toNat_lt; omega)

/-- A finite number is read as what its digits are read as. -/
lemma readsAs_float {x y : Float} (hx : x.isFinite = true) (h : reread? x = some y) :
    ReadsAs d (encode x) (encode y) := by
  have hforms : encode x = .float x ∧ encode y = .float y := ⟨if_pos hx, if_pos (Json.isFinite_of_reread? h)⟩
  rw [hforms.1, hforms.2]
  exact .float hx h

/-- What may be missing is read as something else if it is where it is there. -/
lemma readsAs_option {g : α → α} {o : Option α} (h : ∀ x, o = some x → ReadsAs d (encode x) (encode (g x))) :
    ReadsAs d (encodeOption o) (encodeOption (o.map g)) := by
  cases o with
  | none => exact .null
  | some x => exact h x rfl

/-- What may be missing is read as itself if it is read as itself where it is there. -/
lemma readsAs_option_self (h : ∀ x : α, ReadsAs d (encode x) (encode x)) (o : Option α) :
    ReadsAs d (encodeOption o) (encodeOption o) := by
  cases o with
  | none => exact .null
  | some x => exact h x

/-- A list is read item by item. -/
lemma readsAs_list {g : α → α} {xs : List α} (h : ∀ x ∈ xs, ReadsAs d (encode x) (encode (g x))) :
    ReadsAs (d + 1) (encode xs) (encode (xs.map g)) := by
  have hitems := ReadsAs.arr (xs.map fun x => (encode x, encode (g x))) (by simpa using h)
  rw [List.map_map, List.map_map] at hitems
  change ReadsAs (d + 1) (.arr (xs.map encode)) (.arr ((xs.map g).map encode))
  rwa [List.map_map]

/-- A list is read as itself if all that it may hold is. -/
lemma readsAs_list_self (h : ∀ x : α, ReadsAs d (encode x) (encode x)) (xs : List α) :
    ReadsAs (d + 1) (encode xs) (encode xs) := by
  have hread : ReadsAs (d + 1) (encode xs) (encode (xs.map id)) := readsAs_list fun x _ => h x
  rwa [List.map_id] at hread

/-- And a map value by value. -/
lemma readsAs_idMap {g : α → α} {m : IdMap α} (h : ∀ x ∈ m.values, ReadsAs d (encode x) (encode (g x))) :
    ReadsAs (d + 1) (encode m) (encode (m.map fun _ => g)) := by
  have hvalues : ∀ e ∈ m.toList, ReadsAs d (encode e.2) (encode (g e.2)) := by
    intro e he
    exact h e.2 (mem_values_iff.mpr ⟨e.1, Std.ExtTreeMap.mem_toList_iff_getElem?_eq_some.mp he⟩)
  have hfields := ReadsAs.obj (m.toList.map fun e => (e.1, encode e.2, encode (g e.2)))
    (List.forall_mem_map.mpr hvalues)
  rw [List.map_map, List.map_map] at hfields
  change ReadsAs (d + 1) (.obj (m.toList.map fun e => (e.1, encode e.2)))
    (.obj ((m.map fun _ => g).toList.map fun e => (e.1, encode e.2)))
  rwa [Std.ExtTreeMap.toList_map, List.map_map]

/-! ### Fields -/

/-- The fields have the same names, and the values of the first ones are read as those of the others. -/
def FieldsReadAs (d : Nat) : Fields → Fields → Prop :=
  List.Forall₂ fun a b => a.1 = b.1 ∧ ReadsAs d a.2 b.2

namespace FieldsReadAs

/-- An object is read field by field. -/
lemma obj (h : FieldsReadAs d fields fields') : ReadsAs (d + 1) (.obj fields) (.obj fields') := by
  obtain ⟨triples, hall, hfields, hfields'⟩ : ∃ triples : List (String × Json × Json),
      (∀ t ∈ triples, ReadsAs d t.2.1 t.2.2) ∧ triples.map (fun t => (t.1, t.2.1)) = fields ∧
        triples.map (fun t => (t.1, t.2.2)) = fields' := by
    induction h with
    | nil => exact ⟨[], by simp, rfl, rfl⟩
    | @cons a b _ _ hab _ ih =>
      obtain ⟨triples, hall, hfields, hfields'⟩ := ih
      refine ⟨(a.1, a.2, b.2) :: triples, List.forall_mem_cons.mpr ⟨hab.2, hall⟩, ?_, ?_⟩
      · rw [List.map_cons, hfields]
      · rw [List.map_cons, hfields', hab.1]
  rw [← hfields, ← hfields']
  exact .obj triples hall

lemma append {more more' : Fields} (h : FieldsReadAs d fields fields') (hmore : FieldsReadAs d more more') :
    FieldsReadAs d (fields ++ more) (fields' ++ more') :=
  List.rel_append h hmore

/-- A field that may be left out is read as another one if what it may hold is. -/
lemma present {g : α → α} (name : String) {o : Option α}
    (h : ∀ x, o = some x → ReadsAs d (encode x) (encode (g x))) :
    FieldsReadAs d (Codec.present name o) (Codec.present name (o.map g)) := by
  cases o with
  | none => exact .nil
  | some x => exact .cons ⟨rfl, h x rfl⟩ .nil

/-- A field that may be left out is read as itself if what it may hold is. -/
lemma present_self (name : String) (h : ∀ x : α, ReadsAs d (encode x) (encode x)) (o : Option α) :
    FieldsReadAs d (Codec.present name o) (Codec.present name o) := by
  cases o with
  | none => exact .nil
  | some x => exact .cons ⟨rfl, h x⟩ .nil

end FieldsReadAs

end Codec

open Codec

variable {d : Nat}

/-! ### Messages -/

/-- The finite numbers are read as the others. -/
def RereadsAs {α : Type} [HasFloats α] (f : Float → Float) (x : α) : Prop :=
  ∀ y ∈ floats x, y.isFinite = true ∧ reread? y = some (f y)

/-- The form of a usage is read as that of the usage with other numbers. -/
lemma Usage.readsAs {u : Usage} (h : RereadsAs f u) : ReadsAs (d + 1) (encode u) (encode (u.mapFloats f)) := by
  have hfloat : ∀ x ∈ floats u, ReadsAs d (encode x) (encode (f x)) := fun x hx => readsAs_float (h x hx).1 (h x hx).2
  have htokens := FieldsReadAs.present "tokensPerSecond" fun x hx =>
    hfloat x (List.mem_append_left _ (Option.mem_toList.mpr hx))
  have hcost := FieldsReadAs.present "estimatedCost" fun x hx =>
    hfloat x (List.mem_append_right _ (Option.mem_toList.mpr hx))
  exact FieldsReadAs.obj <| (.append (.append (.append (.append (.append (.append
    (.present_self "promptTokens" readsAs_uint64 u.promptTokens)
    (.present_self "completionTokens" readsAs_uint64 u.completionTokens))
    (.present_self "totalTokens" readsAs_uint64 u.totalTokens)) htokens)
    (.present_self "timeToFirstTokenMs" readsAs_int64 u.timeToFirstToken))
    (.present_self "elapsedMs" readsAs_int64 u.elapsed)) hcost)

lemma Message.readsAs {m : Message} (h : RereadsAs f m) : ReadsAs (d + 2) (encode m) (encode (m.mapFloats f)) := by
  have husage : ReadsAs (d + 1) (encodeOption m.usage) (encodeOption (m.usage.map (Usage.mapFloats f))) :=
    readsAs_option fun u hu => Usage.readsAs fun x hx => h x (List.mem_flatMap.mpr ⟨u, by simp [hu], hx⟩)
  refine FieldsReadAs.obj ?_
  exact .cons ⟨rfl, readsAs_string m.id⟩ <| .cons ⟨rfl, readsAs_option_self readsAs_string m.parent⟩ <|
    .cons ⟨rfl, readsAs_list_self readsAs_string m.children⟩ <| .cons ⟨rfl, .str _⟩ <|
    .cons ⟨rfl, readsAs_string m.content⟩ <| .cons ⟨rfl, readsAs_option_self readsAs_string m.model⟩ <|
    .cons ⟨rfl, readsAs_option_self readsAs_int64 m.position⟩ <| .cons ⟨rfl, readsAs_int64 m.createdAt⟩ <|
    .cons ⟨rfl, readsAs_option_self readsAs_int64 m.updatedAt⟩ <| .cons ⟨rfl, husage⟩ <|
    .cons ⟨rfl, readsAs_bool m.done⟩ <| .cons ⟨rfl, readsAs_option_self readsAs_string m.error⟩ .nil

/-! ### Conversations -/

/-- A history is open four levels deep. -/
lemma History.readsAs {h : History} (hfloats : RereadsAs f h) :
    ReadsAs (d + 4) (encode h) (encode (h.mapFloats f)) := by
  have hmessages : ReadsAs (d + 3) (encode h.messages) (encode (h.messages.map fun _ m => m.mapFloats f)) :=
    readsAs_idMap fun m hm => Message.readsAs fun x hx => hfloats x (List.mem_flatMap.mpr ⟨m, hm, hx⟩)
  refine FieldsReadAs.obj ?_
  exact .cons ⟨rfl, hmessages⟩ <| .cons ⟨rfl, readsAs_option_self readsAs_string h.current⟩ .nil

/-- There are no floating-point numbers in a node, so it is read as itself. -/
lemma Node.readsAs (n : Node) : ReadsAs (d + 2) (encode n) (encode n) := by
  refine FieldsReadAs.obj ?_
  exact .cons ⟨rfl, readsAs_option_self readsAs_string n.parent⟩ <|
    .cons ⟨rfl, readsAs_list_self readsAs_string n.children⟩ <| .cons ⟨rfl, readsAs_string n.fingerprint⟩ <|
    .cons ⟨rfl, readsAs_option_self readsAs_int64 n.position⟩ <| .cons ⟨rfl, readsAs_int64 n.createdAt⟩ .nil

lemma Outline.readsAs (o : Outline) : ReadsAs (d + 4) (encode o) (encode o) := by
  have hnodes : ReadsAs (d + 3) (encode o.nodes) (encode (o.nodes.map fun _ n => n)) :=
    readsAs_idMap fun n _ => n.readsAs
  rw [Std.ExtTreeMap.map_id] at hnodes
  refine FieldsReadAs.obj ?_
  exact .cons ⟨rfl, hnodes⟩ <| .cons ⟨rfl, readsAs_option_self readsAs_string o.current⟩ .nil

/-- A snapshot is open five levels deep. -/
lemma Snapshot.readsAs {s : Snapshot} (h : RereadsAs f s) :
    ReadsAs (d + 5) (encode s) (encode (s.mapFloats f)) := by
  have hbodies : ReadsAs (d + 4) (encode s.bodies) (encode (s.bodies.map (Message.mapFloats f))) :=
    readsAs_list fun m hm => Message.readsAs fun x hx => h x (List.mem_flatMap.mpr ⟨m, hm, hx⟩)
  refine FieldsReadAs.obj ?_
  exact .cons ⟨rfl, s.outline.readsAs⟩ <| .cons ⟨rfl, hbodies⟩ .nil

/-! ### Whole texts -/

/-- The numbers that finite ones are read as are finite, too. -/
lemma Snapshot.allFinite_mapFloats {s : Snapshot} (h : RereadsAs f s) : AllFinite (s.mapFloats f) := by
  intro y hy
  rw [s.floats_mapFloats] at hy
  obtain ⟨x, hx, rfl⟩ := List.mem_map.mp hy
  exact Json.isFinite_of_reread? (h x hx).2

lemma History.allFinite_mapFloats {h : History} (hfloats : RereadsAs f h) : AllFinite (h.mapFloats f) := by
  intro y hy
  obtain ⟨m', hm', hy⟩ := List.mem_flatMap.mp hy
  obtain ⟨id, hid⟩ := mem_values_iff.mp hm'
  change (h.messages.map fun _ m => m.mapFloats f)[id]? = some m' at hid
  rw [Std.ExtTreeMap.getElem?_map] at hid
  obtain ⟨m, hm, rfl⟩ := Option.map_eq_some_iff.mp hid
  rw [m.floats_mapFloats] at hy
  obtain ⟨x, hx, rfl⟩ := List.mem_map.mp hy
  exact Json.isFinite_of_reread? (hfloats x (List.mem_flatMap.mpr ⟨m, mem_values_iff.mpr ⟨id, hm⟩, hx⟩)).2

/-- The text of a snapshot is read as the form of the snapshot with the numbers that its own are read as. -/
theorem Snapshot.parse?_render {s : Snapshot} (h : RereadsAs f s) :
    Json.parse? (encode s).render = some (encode (s.mapFloats f)) :=
  Json.parse?_render (Snapshot.readsAs h)

/-- And so is the text of a history. -/
theorem History.parse?_render {h : History} (hfloats : RereadsAs f h) :
    Json.parse? (encode h).render = some (encode (h.mapFloats f)) :=
  Json.parse?_render (History.readsAs hfloats)

end DialogueSync
