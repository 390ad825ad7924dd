import DialogueSync.IdMap
import Mathlib.Data.List.Perm.Subperm
import Mathlib.Tactic.Lemma

/-!
# Listing and collecting

What the listings of a finite map say about its lookups, and back. `mem_values_iff` reads the values off
the lookups, `size_eq_length` and `size_le_length` count a map by a list of its keys, and
`getElem?_collect` says which value of a list is found under an id: the last one that carries it.
-/

namespace DialogueSync

/-! ### Finite maps -/

section Maps

variable {α β : Type} {cmp : α → α → Ordering} [Std.TransCmp cmp]

/-- The values of a map stand in the order of their keys. -/
lemma values_eq_map_toList (t : Std.ExtTreeMap α β cmp) : t.values = t.toList.map Prod.snd := by
  -- The library says nothing about `values`, so this goes down to the tree that represents the map.
  rcases t with ⟨⟨⟨t⟩⟩⟩
  change t.inner.values = (Std.DTreeMap.Internal.Impl.Const.toList t.inner).map Prod.snd
  rw [Std.DTreeMap.Internal.Impl.values_eq_map_snd,
    Std.DTreeMap.Internal.Impl.Const.toList_eq_toListModel_map]
  simp

@[simp] lemma length_values (t : Std.ExtTreeMap α β cmp) : t.values.length = t.size := by
  rw [values_eq_map_toList, List.length_map, Std.ExtTreeMap.length_toList]

/-- The keys of a map are those under which there is a value. -/
lemma mem_iff_exists_getElem? {t : Std.ExtTreeMap α β cmp} {k : α} :
    k ∈ t ↔ ∃ v, t[k]? = some v := by
  rw [Std.ExtTreeMap.mem_iff_isSome_getElem?, Option.isSome_iff_exists]

variable [Std.LawfulEqCmp cmp]

/-- Its values are those under some key. -/
lemma mem_values_iff {t : Std.ExtTreeMap α β cmp} {v : β} :
    v ∈ t.values ↔ ∃ k : α, t[k]? = some v := by
  simp [values_eq_map_toList, Std.ExtTreeMap.mem_toList_iff_getElem?_eq_some]

/-- The keys of the entries with a property are found with a value that has it. -/
lemma mem_keys_filter {t : Std.ExtTreeMap α β cmp} {p : α → β → Bool} {k : α} :
    k ∈ (t.filter p).keys ↔ ∃ v, t[k]? = some v ∧ p k v := by
  rw [Std.ExtTreeMap.mem_keys, mem_iff_exists_getElem?]
  refine exists_congr fun v => ?_
  rw [Std.ExtTreeMap.getElem?_filter', Option.filter_eq_some_iff]

/-- A map has at most as many entries as a list that contains its keys. -/
lemma size_le_length {t : Std.ExtTreeMap α β cmp} {ks : List α} (h : ∀ k ∈ t, k ∈ ks) :
    t.size ≤ ks.length := by
  rw [← Std.ExtTreeMap.length_keys]
  refine (List.subperm_of_subset Std.ExtTreeMap.nodup_keys fun k hk => ?_).length_le
  exact h k (Std.ExtTreeMap.mem_keys.mp hk)

/-- A list without repetitions that consists of keys of a map is at most as long as the map is large. -/
lemma length_le_size {t : Std.ExtTreeMap α β cmp} {ks : List α} (hks : ks.Nodup)
    (h : ∀ k ∈ ks, k ∈ t) : ks.length ≤ t.size := by
  rw [← Std.ExtTreeMap.length_keys]
  refine (List.subperm_of_subset hks fun k hk => ?_).length_le
  exact Std.ExtTreeMap.mem_keys.mpr (h k hk)

/-- A list of the keys of a map, each once, is as long as the map is large. -/
lemma size_eq_length {t : Std.ExtTreeMap α β cmp} {ks : List α} (hks : ks.Nodup)
    (h : ∀ k, k ∈ t ↔ k ∈ ks) : t.size = ks.length :=
  Nat.le_antisymm (size_le_length fun k => (h k).mp) (length_le_size hks fun k => (h k).mpr)

omit [Std.LawfulEqCmp cmp] in
/-- Two lists of entries in the order of their keys, no key of which occurs twice, are equal if they have the same
entries. -/
lemma eq_of_ordered {xs ys : List (α × β)} (hxs : xs.Pairwise fun e e' => cmp e.1 e'.1 = .lt)
    (hys : ys.Pairwise fun e e' => cmp e.1 e'.1 = .lt) (h : ∀ e, e ∈ xs ↔ e ∈ ys) : xs = ys := by
  have hasymm : ∀ {a b : α}, cmp a b = .lt → cmp b a ≠ .lt := fun hlt => Std.OrientedCmp.not_lt_of_lt hlt
  have hnodup : ∀ {zs : List (α × β)}, (zs.Pairwise fun e e' => cmp e.1 e'.1 = .lt) → zs.Nodup := by
    intro zs hzs
    refine List.Pairwise.imp (fun {e e'} hlt => ?_) hzs
    rintro rfl
    exact hasymm hlt hlt
  refine List.Perm.eq_of_pairwise (fun e e' _ _ hlt hgt => absurd hgt (hasymm hlt)) hxs hys ?_
  exact (List.perm_ext_iff_of_nodup (hnodup hxs) (hnodup hys)).mpr h

/-- After values are inserted under keys of their own, the last value with a key is found under it, and
what was there before under the other keys. -/
lemma getElem?_insertMany_map [DecidableEq α] (t : Std.ExtTreeMap α β cmp) (keyOf : β → α)
    (xs : List β) (k : α) :
    (t.insertMany (xs.map fun x => (keyOf x, x)))[k]? =
      (xs.findRev? fun x => keyOf x = k).or t[k]? := by
  rw [Std.ExtTreeMap.getElem?_insertMany_list]
  congr 1
  induction xs with
  | nil => rfl
  | cons x rest ih =>
    rw [List.map_cons, List.findSomeRev?, ih, List.findRev?]
    cases rest.findRev? fun x => keyOf x = k with
    | some y => rfl
    | none => by_cases h : keyOf x = k <;> simp [h]

end Maps

/-! ### Collecting by id -/

namespace IdMap

variable {α : Type} {idOf : α → String}

/-- A map is what its entries make, in whatever order they are listed. -/
lemma ofList_of_perm {t : IdMap α} {entries : List (String × α)} (h : entries.Perm t.toList) :
    Std.ExtTreeMap.ofList entries = t := by
  refine Std.ExtTreeMap.ext_getElem? fun {id} => ?_
  cases hid : t[id]? with
  | some x =>
    refine Std.ExtTreeMap.getElem?_ofList_of_mem Std.ReflCmp.compare_self ?_
      (h.mem_iff.mpr (Std.ExtTreeMap.mem_toList_iff_getElem?_eq_some.mpr hid))
    exact (h.symm.pairwise_iff fun hne heq => hne (Std.OrientedCmp.eq_symm heq)).mp
      Std.ExtTreeMap.distinct_keys_toList
  | none =>
    refine Std.ExtTreeMap.getElem?_ofList_of_contains_eq_false ?_
    rw [List.contains_eq_mem, decide_eq_false_iff_not]
    intro hmem
    obtain ⟨⟨id', x⟩, he, rfl⟩ := List.mem_map.mp hmem
    rw [Std.ExtTreeMap.mem_toList_iff_getElem?_eq_some.mp (h.mem_iff.mp he)] at hid
    cases hid

/-- What is found in a map made of entries is one of them. -/
lemma mem_of_getElem?_ofList {entries : List (String × α)} {id : String} {x : α}
    (h : (Std.ExtTreeMap.ofList entries : IdMap α)[id]? = some x) : (id, x) ∈ entries := by
  rw [Std.ExtTreeMap.ofList_eq_insertMany_empty, Std.ExtTreeMap.getElem?_insertMany_list,
    Std.ExtTreeMap.getElem?_empty, Option.or_none, List.findSomeRev?_eq_findSome?_reverse] at h
  obtain ⟨⟨id', y⟩, he, hy⟩ := List.exists_of_findSome?_eq_some h
  obtain ⟨hid, hyx⟩ := Option.ite_none_right_eq_some.mp hy
  rw [← Std.compare_eq_iff_eq.mp hid, ← Option.some.inj hyx]
  exact List.mem_reverse.mp he

/-- Every value is stored under the id that it carries. -/
def Keyed (idOf : α → String) (t : IdMap α) : Prop :=
  ∀ (id : String) (x : α), t[id]? = some x → idOf x = id

lemma keyed_insert {t : IdMap α} (ht : Keyed idOf t) (x : α) : Keyed idOf (t.insert (idOf x) x) := by
  intro id y hy
  rw [Std.ExtTreeMap.getElem?_insert] at hy
  simp only [Std.compare_eq_iff_eq] at hy
  split at hy
  next hid =>
    obtain rfl := Option.some.inj hy
    exact hid
  next => exact ht id y hy

/-- Under an id the last value of the list that carries it is found. -/
lemma getElem?_collect (xs : List α) (id : String) :
    (collect idOf xs)[id]? = xs.findRev? fun x => idOf x = id := by
  rw [collect, Std.ExtTreeMap.ofList_eq_insertMany_empty, getElem?_insertMany_map,
    Std.ExtTreeMap.getElem?_empty, Option.or_none]

/-- What is found under an id is a value of the list that carries the id. -/
lemma mem_of_getElem?_collect {xs : List α} {id : String} {x : α}
    (h : (collect idOf xs)[id]? = some x) : x ∈ xs ∧ idOf x = id := by
  rw [getElem?_collect, List.findRev?_eq_find?_reverse] at h
  exact ⟨List.mem_reverse.mp (List.mem_of_find?_eq_some h), by simpa using List.find?_some h⟩

/-- Collected values are under their own ids. -/
lemma keyed_collect (xs : List α) : Keyed idOf (collect idOf xs) :=
  fun _ _ h => (mem_of_getElem?_collect h).2

/-- The last value of a list is collected over the others. -/
lemma collect_concat (xs : List α) (x : α) : collect idOf (xs ++ [x]) = (collect idOf xs).insert (idOf x) x := by
  simp only [collect, List.map_append, List.map_singleton, Std.ExtTreeMap.ofList_eq_insertMany_empty,
    Std.ExtTreeMap.insertMany_append, Std.ExtTreeMap.insertMany_list_singleton]

/-- If only one value of the list carries an id, that one is found under it. -/
lemma getElem?_collect_eq {xs : List α} {id : String} {found : Option α}
    (h : ∀ x, x ∈ xs ∧ idOf x = id ↔ found = some x) : (collect idOf xs)[id]? = found := by
  cases hx : (collect idOf xs)[id]? with
  | some x => exact ((h x).mp (mem_of_getElem?_collect hx)).symm
  | none =>
    refine (Option.eq_none_iff_forall_ne_some.mpr fun x hfound => ?_).symm
    obtain ⟨x', hx'⟩ := mem_iff_exists_getElem?.mp (mem_collect.mpr ⟨x, (h x).mpr hfound⟩)
    cases hx.symm.trans hx'

/-- A list of values of a map, in which every key occurs, collects to the map. -/
lemma collect_eq {xs : List α} {t : IdMap α} (hvalues : ∀ x ∈ xs, t[idOf x]? = some x)
    (hkeys : ∀ id ∈ t, ∃ x ∈ xs, idOf x = id) : collect idOf xs = t := by
  refine Std.ExtTreeMap.ext_getElem? fun {id} => ?_
  cases hx : (collect idOf xs)[id]? with
  | some x =>
    obtain ⟨hmem, rfl⟩ := mem_of_getElem?_collect hx
    exact (hvalues x hmem).symm
  | none =>
    have hid : id ∉ t := by
      intro hid
      obtain ⟨x, hx'⟩ := mem_iff_exists_getElem?.mp (mem_collect.mpr (hkeys id hid))
      rw [hx] at hx'
      cases hx'
    exact (Std.ExtTreeMap.getElem?_eq_none hid).symm

/-- The values of a map that has them under their ids carry its keys, in their order. -/
lemma map_values {t : IdMap α} (ht : Keyed idOf t) : t.values.map idOf = t.keys := by
  rw [values_eq_map_toList, List.map_map, ← Std.ExtTreeMap.map_fst_toList_eq_keys]
  refine List.map_congr_left ?_
  rintro ⟨id, x⟩ hmem
  exact ht id x (Std.ExtTreeMap.mem_toList_iff_getElem?_eq_some.mp hmem)

/-- Collecting the values of a map that has them under their ids gives back the map. -/
lemma collect_values {t : IdMap α} (ht : Keyed idOf t) : collect idOf t.values = t := by
  refine collect_eq (fun x hx => ?_) fun id hid => ?_
  · obtain ⟨id, hid⟩ := mem_values_iff.mp hx
    rw [ht id x hid, hid]
  · obtain ⟨x, hx⟩ := mem_iff_exists_getElem?.mp hid
    exact ⟨x, mem_values_iff.mpr ⟨id, hx⟩, ht id x hx⟩

end IdMap

end DialogueSync
