import DialogueSync.Codec.Basic
import DialogueSync.Proofs.IdMap
import Mathlib.Data.List.Nodup

/-!
# The order of fields

The fields of an object are found by their names, in whatever order they are written. A rewriting of JSON values
`Reorders` them if it leaves all else as it is: leaving a value alone is one such rewriting, and so is bringing
it into canonical form (`reorders_canonical`), as long as no object has two fields with one name. What is read
from an object comes from its fields by name alone (`Fields.single?_of_perm`), and a list or a map is read back
from its written form after any such rewriting if its values are (`readsBack_list`,
`readsBack_idMap`).
-/

namespace DialogueSync

namespace Json

/-! ### Rewriting -/

/-- The field with its value rewritten. -/
def onValue (φ : Json → Json) (f : String × Json) : String × Json :=
  (f.1, φ f.2)

/-- The rewriting puts the fields of objects in another order, and changes nothing else. -/
structure Reorders (φ : Json → Json) : Prop where
  /-- Null stays. -/
  null : φ .null = .null
  /-- Truth values stay. -/
  bool : ∀ b, φ (.bool b) = .bool b
  /-- Whole numbers stay. -/
  int : ∀ n, φ (.int n) = .int n
  /-- Floating-point numbers stay. -/
  float : ∀ x, φ (.float x) = .float x
  /-- Texts stay. -/
  str : ∀ s, φ (.str s) = .str s
  /-- The items of an array stay where they are. -/
  arr : ∀ items, φ (.arr items) = .arr (items.map φ)
  /-- An object without two fields of one name has the same fields. -/
  obj : ∀ fields : List (String × Json), (fields.map Prod.fst).Nodup →
    ∃ fields', φ (.obj fields) = .obj fields' ∧ fields'.Perm (fields.map (onValue φ))

lemma reorders_id : Reorders id where
  null := rfl
  bool _ := rfl
  int _ := rfl
  float _ := rfl
  str _ := rfl
  arr items := by rw [List.map_id]; rfl
  obj fields _ := by
    refine ⟨fields, rfl, ?_⟩
    rw [show onValue id = id from rfl, List.map_id]

/-- A field with a new name is put among those that are there. -/
lemma placeField_perm {name : String} {placed : List (String × Json)} (value : Json)
    (h : name ∉ placed.map Prod.fst) : (placeField name value placed).Perm ((name, value) :: placed) := by
  induction placed with
  | nil => exact List.Perm.refl _
  | cons f rest ih =>
    obtain ⟨n, v⟩ := f
    rw [List.map_cons, List.mem_cons, not_or] at h
    rw [placeField]
    cases hcompare : compare name n with
    | lt => exact List.Perm.refl _
    | eq => exact absurd (Std.compare_eq_iff_eq.mp hcompare) h.1
    | gt => exact ((ih h.2).cons (n, v)).trans (List.Perm.swap _ _ _)

/-- Canonical fields are the given ones in another order if these have different names. -/
lemma canonicalFields_perm {fields placed : List (String × Json)}
    (h : ((fields ++ placed).map Prod.fst).Nodup) :
    (canonicalFields placed fields).Perm (placed ++ fields.map (onValue canonical)) := by
  induction fields generalizing placed with
  | nil => rw [canonicalFields, List.map_nil, List.append_nil]
  | cons f rest ih =>
    obtain ⟨n, v⟩ := f
    rw [List.cons_append, List.map_cons, List.nodup_cons, List.map_append] at h
    have hplace := placeField_perm (canonical v) fun hn => h.1 (List.mem_append_right _ hn)
    have hnodup : ((rest ++ placeField n (canonical v) placed).map Prod.fst).Nodup := by
      rw [List.map_append, ((hplace.map Prod.fst).append_left _).nodup_iff, List.map_cons,
        List.nodup_middle, List.nodup_cons]
      exact h
    rw [canonicalFields]
    exact (ih hnodup).trans ((hplace.append_right _).trans List.perm_middle.symm)

/-- Each item is made canonical by itself. -/
lemma canonicalItems_eq_map (items : List Json) : canonicalItems items = items.map canonical := by
  induction items with
  | nil => rfl
  | cons j rest ih => rw [canonicalItems, ih, List.map_cons]

/-- Bringing values into canonical form puts their fields in order, and changes nothing else. -/
lemma reorders_canonical : Reorders canonical where
  null := by rw [canonical] <;> simp
  bool _ := by rw [canonical] <;> simp
  int _ := by rw [canonical] <;> simp
  float _ := by rw [canonical] <;> simp
  str _ := by rw [canonical] <;> simp
  arr items := by rw [canonical, canonicalItems_eq_map]
  obj fields h := by
    refine ⟨_, by rw [canonical], canonicalFields_perm ?_⟩
    rwa [List.append_nil]

/-! ### Canonical objects -/

/-- The fields are in the order of their names, each name once. -/
def Ordered (fields : List (String × Json)) : Prop :=
  fields.Pairwise fun f g => compare f.1 g.1 = .lt

/-- Ordered fields have different names. -/
lemma Ordered.nodup {fields : List (String × Json)} (h : Ordered fields) : (fields.map Prod.fst).Nodup := by
  refine List.pairwise_map.mpr (List.Pairwise.imp (fun {f g} hlt heq => ?_) h)
  rw [heq, (Std.compare_eq_iff_eq.mpr rfl : compare g.1 g.1 = .eq)] at hlt
  cases hlt

/-- A field that is placed is there, and no other one comes. -/
lemma mem_placeField {name : String} {value : Json} {placed : List (String × Json)} {f : String × Json}
    (h : f ∈ placeField name value placed) : f = (name, value) ∨ f ∈ placed := by
  induction placed with
  | nil => exact Or.inl (List.mem_singleton.mp h)
  | cons g rest ih =>
    obtain ⟨n, v⟩ := g
    rw [placeField] at h
    cases hcompare : compare name n <;> rw [hcompare] at h
    case lt => exact List.mem_cons.mp h
    case eq => exact (List.mem_cons.mp h).imp_right (List.mem_cons_of_mem _)
    case gt =>
      rcases List.mem_cons.mp h with rfl | h
      · exact Or.inr List.mem_cons_self
      · exact (ih h).imp_right (List.mem_cons_of_mem _)

/-- A field that is placed keeps fields in order. -/
lemma ordered_placeField {placed : List (String × Json)} (h : Ordered placed) (name : String) (value : Json) :
    Ordered (placeField name value placed) := by
  induction placed with
  | nil => exact List.pairwise_singleton _ _
  | cons g rest ih =>
    obtain ⟨n, v⟩ := g
    obtain ⟨hfirst, hrest⟩ := List.pairwise_cons.mp h
    rw [placeField]
    cases hcompare : compare name n with
    | lt =>
      refine List.pairwise_cons.mpr ⟨fun f hf => ?_, h⟩
      rcases List.mem_cons.mp hf with rfl | hf
      · exact hcompare
      · exact Std.TransCmp.lt_trans hcompare (hfirst f hf)
    | eq =>
      obtain rfl := Std.compare_eq_iff_eq.mp hcompare
      exact List.pairwise_cons.mpr ⟨hfirst, hrest⟩
    | gt =>
      refine List.pairwise_cons.mpr ⟨fun f hf => ?_, ih hrest⟩
      rcases mem_placeField hf with rfl | hf
      · exact Std.OrientedCmp.gt_iff_lt.mp hcompare
      · exact hfirst f hf

lemma ordered_canonicalFields {fields placed : List (String × Json)} (h : Ordered placed) :
    Ordered (canonicalFields placed fields) := by
  induction fields generalizing placed with
  | nil => exact h
  | cons f rest ih => exact ih (ordered_placeField h _ _)

/-- In a canonical object every name stands once. -/
lemma ordered_of_canonical {j : Json} {fields : List (String × Json)} (h : j.canonical = .obj fields) :
    Ordered fields := by
  cases j with
  | obj given =>
    rw [canonical] at h
    exact Json.obj.inj h ▸ ordered_canonicalFields List.Pairwise.nil
  | _ => simp [canonical] at h

end Json

namespace Codec

open Json (onValue Reorders)

variable {α : Type} [Codec α] {fields fields' : Fields} {name : String} {j : Json} {x : α}
  {φ : Json → Json}

/-! ### Fields by name -/

/-- A field is found by its name, in whatever order the fields are written. -/
lemma Fields.single?_of_perm (h : fields.Perm fields') (name : String) :
    fields.single? name = fields'.single? name := by
  have hfilter := h.filter fun f => f.1 = name
  unfold Fields.single?
  generalize fields.filter (·.1 = name) = found at hfilter ⊢
  generalize fields'.filter (·.1 = name) = found' at hfilter ⊢
  rcases found with _ | ⟨f, _ | ⟨g, more⟩⟩
  · rw [hfilter.nil_eq]
  · rw [List.singleton_perm.mp hfilter]
  · obtain ⟨f', g', more', rfl⟩ : ∃ f' g' more', found' = f' :: g' :: more' := by
      have hlength := hfilter.length_eq
      rcases found' with _ | ⟨f', _ | ⟨g', more'⟩⟩
      · cases hlength
      · cases hlength
      · exact ⟨f', g', more', rfl⟩
    rfl

/-- A field is found if there is one of its name, and no second one. -/
lemma Fields.single?_of_mem (hnodup : (fields.map Prod.fst).Nodup) (h : (name, j) ∈ fields) :
    fields.single? name = some (some j) := by
  obtain ⟨before, after, rfl⟩ := List.append_of_mem h
  rw [List.map_append, List.map_cons, List.nodup_middle, List.nodup_cons, ← List.map_append] at hnodup
  have hnone : ∀ part : Fields, (∀ f ∈ part, f ∈ before ++ after) → part.filter (·.1 = name) = [] := by
    intro part hpart
    rw [List.filter_eq_nil_iff]
    intro f hf hname
    exact hnodup.1 (List.mem_map.mpr ⟨f, hpart f hf, of_decide_eq_true hname⟩)
  unfold Fields.single?
  rw [List.filter_append, hnone before fun f hf => List.mem_append_left _ hf,
    List.filter_cons_of_pos (by simp), hnone after fun f hf => List.mem_append_right _ hf]
  rfl

/-- The fields of an object are found in it after it was rewritten, with their values rewritten. -/
lemma Fields.single?_of_reordered (hnodup : (fields.map Prod.fst).Nodup)
    (hperm : fields'.Perm (fields.map (onValue φ))) (h : (name, j) ∈ fields) :
    fields'.single? name = some (some (φ j)) := by
  rw [single?_of_perm hperm]
  refine single?_of_mem ?_ (List.mem_map.mpr ⟨(name, j), h, rfl⟩)
  rwa [List.map_map]

/-- A field that is there once is read if its value is. -/
lemma Fields.required_of_single? (h : fields.single? name = some (some j)) (hdecode : decode j = some x) :
    fields.required name = some x := by
  rw [required, h]
  exact hdecode

lemma Fields.getD_of_single? (default : α) (h : fields.single? name = some (some j))
    (hdecode : decode j = some x) : fields.getD name default = some x := by
  rw [getD, h]
  exact hdecode

lemma Fields.optional_of_single? {x : Option α} (h : fields.single? name = some (some j))
    (hdecode : decodeOption j = some x) : fields.optional name = some x := by
  rw [optional, h]
  exact hdecode

lemma Fields.mem_of_single? (h : fields.single? name = some (some j)) : (name, j) ∈ fields := by
  unfold single? at h
  split at h
  · cases h
  next f hfilter =>
    obtain ⟨hmem, hname⟩ := List.mem_filter.mp (hfilter ▸ List.mem_singleton_self f)
    cases h
    rwa [← of_decide_eq_true hname]
  · cases h

/-- What is read from a required field is in it. -/
lemma Fields.exists_of_required (h : fields.required name = some x) :
    ∃ j, (name, j) ∈ fields ∧ decode j = some x := by
  obtain ⟨found, hfound, h⟩ := Option.bind_eq_some_iff.mp h
  cases found with
  | none => cases h
  | some j => exact ⟨j, mem_of_single? hfound, h⟩

/-- Of fields with different names one is missing exactly if no field has its name. -/
lemma Fields.single?_eq_none_iff (hnodup : (fields.map Prod.fst).Nodup) :
    fields.single? name = some none ↔ ∀ f ∈ fields, f.1 ≠ name := by
  constructor
  · rintro h ⟨name', j⟩ hf rfl
    rw [single?_of_mem hnodup hf] at h
    cases h
  · intro h
    unfold single?
    rw [List.filter_eq_nil_iff.mpr fun f hf hname => h f hf (of_decide_eq_true hname)]

/-- Where no name stands twice, a field that must be there is read from the field of that name. -/
lemma Fields.required_eq_some_iff (hnodup : (fields.map Prod.fst).Nodup) :
    fields.required name = some x ↔ ∃ j, (name, j) ∈ fields ∧ decode j = some x := by
  refine ⟨exists_of_required, ?_⟩
  rintro ⟨j, hj, hdecode⟩
  exact required_of_single? (single?_of_mem hnodup hj) hdecode

/-- Where no name stands twice, a field that may be missing is absent without a field of that name, and otherwise
read from it. -/
lemma Fields.optional_eq_some_iff (hnodup : (fields.map Prod.fst).Nodup) {x : Option α} :
    fields.optional name = some x ↔
      ((∀ f ∈ fields, f.1 ≠ name) ∧ x = none) ∨ ∃ j, (name, j) ∈ fields ∧ decodeOption j = some x := by
  constructor
  · intro h
    obtain ⟨found, hfound, h⟩ := Option.bind_eq_some_iff.mp h
    cases found with
    | none => exact Or.inl ⟨(single?_eq_none_iff hnodup).mp hfound, (Option.some.inj h).symm⟩
    | some j => exact Or.inr ⟨j, mem_of_single? hfound, h⟩
  · rintro (⟨hmissing, rfl⟩ | ⟨j, hj, hdecode⟩)
    · rw [optional, (single?_eq_none_iff hnodup).mpr hmissing]
      rfl
    · exact optional_of_single? (single?_of_mem hnodup hj) hdecode

/-! ### Values that are read back -/

/-- The value is read back from its rewritten form. -/
def ReadsBack (φ : Json → Json) (x : α) : Prop :=
  decode (φ (encode x)) = some x

lemma readsBack_string (hφ : Reorders φ) (s : String) : ReadsBack φ s :=
  congrArg decode (hφ.str s)

lemma readsBack_bool (hφ : Reorders φ) (b : Bool) : ReadsBack φ b :=
  congrArg decode (hφ.bool b)

lemma readsBack_int64 (hφ : Reorders φ) (n : Int64) : ReadsBack φ n := by
  refine (congrArg decode (hφ.int n.toInt)).trans ?_
  change (if Int64.minValue.toInt ≤ n.toInt ∧ n.toInt ≤ Int64.maxValue.toInt
    then some (Int64.ofInt n.toInt) else none) = _
  rw [if_pos ⟨n.minValue_le_toInt, n.toInt_le⟩, Int64.ofInt_toInt]

/-- A value is read as one that may be absent, if null does not stand for a value. -/
lemma decodeOption_of_decode (hnull : (decode .null : Option α) = none) (h : decode j = some x) :
    decodeOption j = some (some x) := by
  cases j with
  | null => rw [hnull] at h; cases h
  | _ => exact congrArg (Option.map some) h

/-- A value that may be absent is read back if it is read back where it is there. -/
lemma decodeOption_encodeOption (hφ : Reorders φ) (hnull : (decode .null : Option α) = none)
    (x : Option α) (h : ∀ y, x = some y → ReadsBack φ y) :
    decodeOption (φ (encodeOption x)) = some x := by
  cases x with
  | none => rw [encodeOption, hφ.null]; rfl
  | some y => exact decodeOption_of_decode hnull (h y rfl)

/-- A list is read back if its items are. -/
lemma readsBack_list (hφ : Reorders φ) (xs : List α) (h : ∀ x ∈ xs, ReadsBack φ x) : ReadsBack φ xs := by
  have hitems : ∀ ys : List α, (∀ y ∈ ys, ReadsBack φ y) → decodeAll ((ys.map encode).map φ) = some ys := by
    intro ys
    induction ys with
    | nil => intro _; rfl
    | cons y rest ih =>
      intro hys
      have hrest := ih fun z hz => hys z (List.mem_cons_of_mem y hz)
      unfold decodeAll at hrest ⊢
      rw [List.map_cons, List.map_cons, List.mapM_cons, hys y List.mem_cons_self, hrest]
      rfl
  change decode (φ (.arr (xs.map encode))) = _
  rw [hφ.arr]
  exact hitems xs h

/-- If everything in a list can be read, then reading the list is reading what can be read in it. -/
lemma mapM_eq_filterMap {β γ : Type} {read : β → Option γ} {ys : List β} (h : ∀ y ∈ ys, (read y).isSome) :
    ys.mapM read = some (ys.filterMap read) := by
  induction ys with
  | nil => rfl
  | cons y rest ih =>
    obtain ⟨z, hz⟩ := Option.isSome_iff_exists.mp (h y List.mem_cons_self)
    rw [List.mapM_cons, hz, ih fun y' hy' => h y' (List.mem_cons_of_mem y hy'), List.filterMap_cons, hz]
    rfl

/-- Free JSON values are read as they are. -/
lemma decodeAll_json (items : List Json) : decodeAll items = some items := by
  unfold decodeAll
  rw [mapM_eq_filterMap fun _ _ => rfl]
  exact congrArg some List.filterMap_some

/-- A map is read back if its values are. -/
lemma readsBack_idMap (hφ : Reorders φ) (m : IdMap α)
    (h : ∀ (id : String) (x : α), m[id]? = some x → ReadsBack φ x) : ReadsBack φ m := by
  have hnodup : ((m.toList.map fun e => (e.1, encode e.2)).map Prod.fst).Nodup := by
    have hkeys : (m.toList.map Prod.fst).Nodup := by
      rw [Std.ExtTreeMap.map_fst_toList_eq_keys]
      exact Std.ExtTreeMap.nodup_keys
    rwa [List.map_map]
  obtain ⟨fields', heq, hperm⟩ := hφ.obj _ hnodup
  have hread : ∀ e ∈ m.toList, (decode (φ (encode e.2))).map (fun x => (e.1, x)) = some e := by
    rintro ⟨id, x⟩ he
    rw [h id x (Std.ExtTreeMap.mem_toList_iff_getElem?_eq_some.mp he), Option.map_some]
  rw [List.map_map] at hperm
  have hall : ∀ f ∈ fields', ((decode f.2 : Option α).map fun x => (f.1, x)).isSome := by
    intro f hf
    obtain ⟨e, he, rfl⟩ := List.mem_map.mp (hperm.mem_iff.mp hf)
    exact Option.isSome_of_eq_some (hread e he)
  have hentries : (fields'.filterMap fun f => (decode f.2 : Option α).map fun x => (f.1, x)).Perm
      m.toList := by
    refine (hperm.filterMap _).trans (List.Perm.of_eq ?_)
    rw [List.filterMap_map]
    refine (List.filterMap_congr hread).trans ?_
    exact List.filterMap_some
  change decode (φ (.obj _)) = _
  rw [heq]
  change Option.bind (fields'.mapM fun f => (decode f.2 : Option α).map fun x => (f.1, x)) _ = _
  rw [mapM_eq_filterMap hall, Option.bind_some]
  exact congrArg some (IdMap.ofList_of_perm hentries)

/-- The fields of an object whose names differ are found in the rewritten object by their names. -/
lemma exists_single?_eq (hφ : Reorders φ) (fields : Fields) (hnodup : (fields.map Prod.fst).Nodup) :
    ∃ fields', φ (.obj fields) = .obj fields' ∧ fields'.Perm (fields.map (onValue φ)) ∧
      ∀ name j, (name, j) ∈ fields → Fields.single? fields' name = some (some (φ j)) := by
  obtain ⟨fields', heq, hperm⟩ := hφ.obj fields hnodup
  exact ⟨fields', heq, hperm, fun name j h => Fields.single?_of_reordered hnodup hperm h⟩

end Codec

end DialogueSync
