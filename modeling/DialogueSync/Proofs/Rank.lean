import DialogueSync.Rank
import Mathlib.Data.List.Destutter
import Mathlib.Tactic.Lemma

/-!
# Sorting siblings

Comparing two ranks decides which one comes `Before` the other. This is a strict total order, and only equal ranks
compare as equal. So there is one list in which every id that has a rank stands once, in strictly increasing order
(`Sorts.unique`), whatever the order and the repetitions in the list that is sorted.

Such a list can also be had by sorting the ranks with their repetitions and then leaving out each one whose left
neighbour has the same id (`thinned`). To look at neighbours is enough: ranks with one id are equal if every id is
resolved to a rank of its own, and equal ranks stand side by side.
-/

namespace DialogueSync.Rank

/-- A rank comes before another one: by position, where none comes first, then by creation time, then by id. -/
inductive Before (a b : Rank) : Prop where
  /-- A rank without a position comes before one with a position. -/
  | unplaced {y : Int64} (ha : a.position = none) (hb : b.position = some y)
  /-- The smaller position comes first. -/
  | position {x y : Int64} (ha : a.position = some x) (hb : b.position = some y) (h : x < y)
  /-- At one position, or without positions, what was created earlier comes first. -/
  | createdAt (hposition : a.position = b.position) (h : a.createdAt < b.createdAt)
  /-- What was created at one time is ordered by id. -/
  | id (hposition : a.position = b.position) (hcreatedAt : a.createdAt = b.createdAt) (h : a.id < b.id)

/-- The ids that are sorted out of a list: those that have a rank, each once, in strictly increasing order. -/
structure Sorts (rankOf : String → Option Rank) (ids sorted : List String) : Prop where
  /-- The ids of the list that have a rank come out, and no others. -/
  mem_iff : ∀ id, id ∈ sorted ↔ id ∈ ids ∧ ∃ r, rankOf id = some r
  /-- No id comes out twice. -/
  nodup : sorted.Nodup
  /-- An id comes out before another one if its rank comes before that of the other. -/
  pairwise : sorted.Pairwise fun a b => ∃ r r', rankOf a = some r ∧ rankOf b = some r' ∧ r.Before r'

/-- The ids of the ranks of a list, sorted with their repetitions, without those that equal their left neighbour. -/
def thinned (rankOf : String → Option Rank) (ids : List String) : List String :=
  (((ids.filterMap rankOf).mergeSort fun a b => (compare a b).isLE).destutter fun a b => a.id ≠ b.id).map Rank.id

/-! ### The order of ranks -/

section Order

variable {a b c : Rank}

/-- Something without a position comes before everything with one, and smaller positions come first. -/
lemma compare_position_eq_lt_iff {p q : Option Int64} :
    compare p q = .lt ↔
      (p = none ∧ ∃ y, q = some y) ∨ ∃ x y, p = some x ∧ q = some y ∧ x < y := by
  cases p with
  | none =>
    cases q with
    | none => simp
    | some y => exact iff_of_true rfl (Or.inl ⟨rfl, y, rfl⟩)
  | some x =>
    cases q with
    | none => exact iff_of_false (show Ordering.gt ≠ .lt by decide) (by simp)
    | some y =>
      change compare x y = .lt ↔ _
      simp [Std.compare_eq_lt]

/-- Comparing says that a rank is smaller if it comes before the other. -/
lemma compare_eq_lt_iff : compare a b = .lt ↔ a.Before b := by
  change (compare a.position b.position).then
    ((compare a.createdAt b.createdAt).then (compare a.id b.id)) = .lt ↔ _
  have hid : compare a.id b.id = .lt ↔ a.id < b.id := compareOfLessAndEq_eq_lt
  rw [Ordering.then_eq_lt, Ordering.then_eq_lt, compare_position_eq_lt_iff, Std.compare_eq_lt, hid,
    Std.LawfulEqOrd.compare_eq_iff_eq, Std.LawfulEqOrd.compare_eq_iff_eq]
  constructor
  · rintro ((⟨ha, y, hb⟩ | ⟨x, y, ha, hb, h⟩) | ⟨hposition, h | ⟨hcreatedAt, h⟩⟩)
    · exact .unplaced ha hb
    · exact .position ha hb h
    · exact .createdAt hposition h
    · exact .id hposition hcreatedAt h
  · intro h
    cases h with
    | unplaced ha hb => exact Or.inl (Or.inl ⟨ha, _, hb⟩)
    | position ha hb h => exact Or.inl (Or.inr ⟨_, _, ha, hb, h⟩)
    | createdAt hposition h => exact Or.inr ⟨hposition, Or.inl h⟩
    | id hposition hcreatedAt h => exact Or.inr ⟨hposition, Or.inr ⟨hcreatedAt, h⟩⟩

/-- And that it is greater if the other comes before it. -/
lemma compare_eq_gt_iff : compare a b = .gt ↔ b.Before a := by
  rw [Std.OrientedCmp.gt_iff_lt, compare_eq_lt_iff]

lemma Before.irrefl (a : Rank) : ¬ a.Before a := by
  rw [← compare_eq_lt_iff, Std.ReflOrd.compare_self]
  decide

/-- What comes before something comes before all that follows it. -/
lemma Before.trans (h : a.Before b) (h' : b.Before c) : a.Before c :=
  compare_eq_lt_iff.mp (Std.TransCmp.lt_trans (compare_eq_lt_iff.mpr h) (compare_eq_lt_iff.mpr h'))

lemma eq_of_not_before (h : ¬ a.Before b) (h' : ¬ b.Before a) : a = b := by
  rw [← compare_eq_lt_iff] at h
  rw [← compare_eq_gt_iff] at h'
  refine Std.LawfulEqOrd.eq_of_compare ?_
  cases hcompare : compare a b with
  | lt => exact absurd hcompare h
  | eq => rfl
  | gt => exact absurd hcompare h'

instance : IsStrictTotalOrder Rank Before where
  irrefl := Before.irrefl
  trans _ _ _ := Before.trans
  trichotomous _ _ := eq_of_not_before

/-- Of two ranks with different ids the one that does not compare as greater comes before the other. -/
lemma before_of_isLE (hle : (compare a b).isLE) (hne : a.id ≠ b.id) : a.Before b := by
  by_contra hnot
  have hgt : ¬ b.Before a := by
    rw [← compare_eq_gt_iff]
    intro hcompare
    rw [hcompare] at hle
    cases hle
  exact hne (congrArg Rank.id (eq_of_not_before hnot hgt))

end Order

/-! ### Sorted ids -/

variable {rankOf : String → Option Rank} {ids ids' sorted sorted' : List String}

/-- The sorted ids depend only on the ranks that the ids have. -/
lemma sortIds_congr {rankOf' : String → Option Rank}
    (h : ∀ r, (∃ id ∈ ids, rankOf id = some r) ↔ ∃ id ∈ ids', rankOf' id = some r) :
    sortIds rankOf ids = sortIds rankOf' ids' := by
  have hset : Std.ExtTreeSet.ofList (ids.filterMap rankOf) compare =
      Std.ExtTreeSet.ofList (ids'.filterMap rankOf') := by
    refine Std.ExtTreeSet.ext_mem fun r => ?_
    simpa [Std.ExtTreeSet.mem_ofList] using h r
  rw [sortIds, sortIds, hset]

/-- If the ranks carry the ids, each rank that an id of a list has is the one that its own id has. -/
lemma rankOf_id (hrank : ∀ id r, rankOf id = some r → r.id = id) {r : Rank} (hr : r ∈ ids.filterMap rankOf) :
    rankOf r.id = some r := by
  obtain ⟨id, -, hid⟩ := List.mem_filterMap.mp hr
  rw [hrank id r hid, hid]

/-- What stands in order by rank stands in order by id, if the ranks are those of their ids. -/
lemma pairwise_map_id {R : Rank → Rank → Prop} {ranks : List Rank} (hranked : ∀ r ∈ ranks, rankOf r.id = some r)
    (h : ranks.Pairwise R) :
    (ranks.map Rank.id).Pairwise fun a b => ∃ r r', rankOf a = some r ∧ rankOf b = some r' ∧ R r r' := by
  rw [List.pairwise_map]
  refine List.Pairwise.imp_of_mem (fun {r r'} hr hr' hrel => ?_) h
  exact ⟨r, r', hranked r hr, hranked r' hr', hrel⟩

/-- Sorted ids stand in strictly increasing order of their ranks, if the ranks carry the ids. -/
lemma pairwise_sortIds (hrank : ∀ id r, rankOf id = some r → r.id = id) (ids : List String) :
    (sortIds rankOf ids).Pairwise fun a b =>
      ∃ r r', rankOf a = some r ∧ rankOf b = some r' ∧ compare r r' = .lt := by
  refine pairwise_map_id (fun r hr => ?_) Std.ExtTreeSet.ordered_toList
  rw [Std.ExtTreeSet.mem_toList, Std.ExtTreeSet.mem_ofList] at hr
  exact rankOf_id hrank (by simpa using hr)

namespace Sorts

/-- What stands in strictly increasing order has no repetitions. -/
lemma of_pairwise (hmem : ∀ id, id ∈ sorted ↔ id ∈ ids ∧ ∃ r, rankOf id = some r)
    (h : sorted.Pairwise fun a b => ∃ r r', rankOf a = some r ∧ rankOf b = some r' ∧ r.Before r') :
    Sorts rankOf ids sorted := by
  refine ⟨hmem, h.imp fun {a b} hab => ?_, h⟩
  obtain ⟨r, r', hr, hr', hbefore⟩ := hab
  rintro rfl
  rw [Option.some.inj (hr.symm.trans hr')] at hbefore
  exact Before.irrefl r' hbefore

/-- What is sorted out depends only on which ids there are. -/
lemma unique (h : Sorts rankOf ids sorted) (h' : Sorts rankOf ids' sorted') (hids : ∀ id, id ∈ ids ↔ id ∈ ids') :
    sorted = sorted' := by
  refine List.Perm.eq_of_pairwise (fun a b _ _ hab hba => ?_) h.pairwise h'.pairwise ?_
  · obtain ⟨r, r', hr, hr', hbefore⟩ := hab
    obtain ⟨q', q, hq', hq, hafter⟩ := hba
    rw [Option.some.inj (hq'.symm.trans hr'), Option.some.inj (hq.symm.trans hr)] at hafter
    exact absurd (hbefore.trans hafter) (Before.irrefl r)
  · rw [List.perm_ext_iff_of_nodup h.nodup h'.nodup]
    intro id
    rw [h.mem_iff, h'.mem_iff, hids]

/-- Sorted ids are sorted out of themselves. -/
lemma self (h : Sorts rankOf ids sorted) : Sorts rankOf sorted sorted where
  mem_iff id := by simp only [h.mem_iff, and_assoc, and_self]
  nodup := h.nodup
  pairwise := h.pairwise

end Sorts

/-- If the ranks carry the ids, the sorted ids are those that have a rank. -/
lemma sorts_sortIds (hrank : ∀ id r, rankOf id = some r → r.id = id) (ids : List String) :
    Sorts rankOf ids (sortIds rankOf ids) := by
  refine .of_pairwise (fun id => ?_) ?_
  · rw [mem_sortIds]
    constructor
    · rintro ⟨i, hi, r, hr, rfl⟩
      rw [hrank i r hr]
      exact ⟨hi, r, hr⟩
    · rintro ⟨hid, r, hr⟩
      exact ⟨id, hid, r, hr, hrank id r hr⟩
  · refine (pairwise_sortIds hrank ids).imp fun {a b} hab => ?_
    simpa only [compare_eq_lt_iff] using hab

/-! ### Leaving out repetitions next to each other -/

/-- Leaving out what equals its left neighbour leaves out no member. -/
lemma mem_destutter_ne {α : Type} [DecidableEq α] {x : α} {xs : List α} :
    x ∈ xs.destutter (· ≠ ·) ↔ x ∈ xs := by
  have hmem : ∀ (xs : List α) (y : α), x ∈ y :: xs → x ∈ xs.destutter' (· ≠ ·) y := by
    intro xs
    induction xs with
    | nil => simp
    | cons z rest ih =>
      intro y hx
      by_cases hne : y ≠ z
      · rw [List.destutter'_cons_pos rest hne]
        rcases List.mem_cons.mp hx with rfl | hx
        · exact List.mem_cons_self
        · exact List.mem_cons_of_mem _ (ih z hx)
      · rw [List.destutter'_cons_neg rest hne]
        obtain rfl : y = z := by simpa using hne
        exact ih y (by simpa using hx)
  refine ⟨fun hx => (List.destutter_sublist _ xs).subset hx, fun hx => ?_⟩
  cases xs with
  | nil => cases hx
  | cons y rest => exact hmem rest y hx

/-- Sorted ranks of which no two neighbours have one id stand in strictly increasing order. -/
lemma pairwise_before {ranks : List Rank} (hsorted : ranks.Pairwise fun a b => (compare a b).isLE)
    (hne : ranks.IsChain fun a b => a.id ≠ b.id) : ranks.Pairwise Before := by
  have hchain : ranks.IsChain Before := by
    induction hne with
    | nil => exact .nil
    | singleton a => exact .singleton a
    | cons_cons hne _ ih =>
      obtain ⟨hhead, hrest⟩ := List.pairwise_cons.mp hsorted
      exact .cons_cons (before_of_isLE (hhead _ List.mem_cons_self) hne) (ih hrest)
  exact List.isChain_iff_pairwise.mp hchain

/-- If the ranks carry the ids, no id is lost with the neighbours that are left out. -/
lemma sorts_thinned (hrank : ∀ id r, rankOf id = some r → r.id = id) (ids : List String) :
    Sorts rankOf ids (thinned rankOf ids) := by
  obtain ⟨all, hall⟩ : ∃ all, all = (ids.filterMap rankOf).mergeSort fun a b => (compare a b).isLE := ⟨_, rfl⟩
  have hthinned : thinned rankOf ids = (all.destutter fun a b => a.id ≠ b.id).map Rank.id := by
    rw [hall, thinned]
  have hmem : ∀ r, r ∈ all ↔ r ∈ ids.filterMap rankOf := by
    intro r
    rw [hall, List.mem_mergeSort]
  have hkept : (all.destutter fun a b => a.id ≠ b.id).Sublist all := List.destutter_sublist _ all
  rw [hthinned]
  refine .of_pairwise (fun id => ?_) (pairwise_map_id (fun r hr => ?_) ?_)
  · have hids : (all.destutter fun a b => a.id ≠ b.id).map Rank.id = (all.map Rank.id).destutter (· ≠ ·) :=
      List.map_destutter fun a _ b _ => Iff.rfl
    rw [hids, mem_destutter_ne, List.mem_map]
    constructor
    · rintro ⟨r, hr, rfl⟩
      obtain ⟨i, hi, hr⟩ := List.mem_filterMap.mp ((hmem r).mp hr)
      rw [hrank i r hr]
      exact ⟨hi, r, hr⟩
    · rintro ⟨hid, r, hr⟩
      exact ⟨r, (hmem r).mpr (List.mem_filterMap.mpr ⟨id, hid, hr⟩), hrank id r hr⟩
  · exact rankOf_id hrank ((hmem r).mp (hkept.subset hr))
  · have hsorted : all.Pairwise fun a b => (compare a b).isLE := by
      rw [hall]
      refine List.pairwise_mergeSort (fun _ _ _ => Std.TransCmp.isLE_trans) (fun a b => ?_) _
      cases hcompare : compare a b with
      | lt => rfl
      | eq => rfl
      | gt => rw [Std.OrientedCmp.gt_iff_lt.mp hcompare]; rfl
    exact pairwise_before (hsorted.sublist hkept) (List.isChain_destutter _ all)

/-! ### One possible answer -/

/-- Comparing ranks is a strict total order, in which only equal ranks compare as equal. If every id is resolved to
a rank that carries it, or to none, then exactly the ids with a rank are sorted out of a list, each once and in
strictly increasing order. So neither the order of the list matters nor how often an id stands in it, sorting once
more changes nothing, and it is all the same to sort with repetitions and to leave them out among neighbours. -/
theorem canonical_sortIds (hrank : ∀ id r, rankOf id = some r → r.id = id) :
    (IsStrictTotalOrder Rank Before ∧ ∀ a b : Rank, (compare a b = .lt ↔ a.Before b) ∧
        (compare a b = .eq ↔ a = b) ∧ (compare a b = .gt ↔ b.Before a)) ∧
      ∀ ids, Sorts rankOf ids (sortIds rankOf ids) ∧ thinned rankOf ids = sortIds rankOf ids ∧
        (∀ ids', (∀ id, id ∈ ids' ↔ id ∈ ids) → sortIds rankOf ids' = sortIds rankOf ids) ∧
        sortIds rankOf (sortIds rankOf ids) = sortIds rankOf ids := by
  refine ⟨⟨inferInstance, fun a b => ⟨compare_eq_lt_iff, Std.LawfulEqOrd.compare_eq_iff_eq, compare_eq_gt_iff⟩⟩,
    fun ids => ?_⟩
  have hsorts := sorts_sortIds hrank ids
  refine ⟨hsorts, (sorts_thinned hrank ids).unique hsorts fun _ => Iff.rfl, fun ids' hids => ?_, ?_⟩
  · exact (sorts_sortIds hrank ids').unique hsorts hids
  · exact (sorts_sortIds hrank _).unique hsorts.self fun _ => Iff.rfl

/-- Two answers under one question, of which the older one has no position. -/
def ofAnswer : String → Option Rank
  | "b" => some ⟨some 0, 200, "b"⟩
  | "d" => some ⟨none, 150, "d"⟩
  | _ => none

/-- An id without a rank is left out, and so is the second one of an answer. -/
theorem canonical_sortIds_ofAnswer :
    (∀ id r, ofAnswer id = some r → r.id = id) ∧ sortIds ofAnswer ["b", "z", "d", "b"] = ["d", "b"] ∧
      Sorts ofAnswer ["b", "z", "d", "b"] ["d", "b"] ∧ thinned ofAnswer ["b", "z", "d", "b"] = ["d", "b"] ∧
      sortIds ofAnswer ["d", "b"] = ["d", "b"] := by
  have hrank : ∀ id r, ofAnswer id = some r → r.id = id := by
    intro id r h
    unfold ofAnswer at h
    split at h
    · rw [← Option.some.inj h]
    · rw [← Option.some.inj h]
    · cases h
  have hsorted : sortIds ofAnswer ["b", "z", "d", "b"] = ["d", "b"] := by decide +kernel
  obtain ⟨hsorts, hthinned, -, hagain⟩ := (canonical_sortIds hrank).2 ["b", "z", "d", "b"]
  rw [hsorted] at hsorts hthinned hagain
  exact ⟨hrank, hsorted, hsorts, hthinned, hagain⟩

end DialogueSync.Rank
