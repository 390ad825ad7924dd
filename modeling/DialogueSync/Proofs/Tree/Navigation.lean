import DialogueSync.Proofs.Bodies
import DialogueSync.Proofs.Tree.Changes

/-!
# Ways down and leaves

The way down to a message leads through what the message stands within (`exists_mem_path_iff`). No way up in a
linked tree is longer than the tree is large, so the way down to a message is the one to its parent with the message
behind it (`path_eq`), and a linked tree that is not empty has a leaf (`exists_leaf`). When the selected message is
chosen anew, it is the leaf that was touched last (`resolve_cases`); of two messages touched at the same time the one
created later counts, and of two created at the same time the one with the smaller id.
-/

namespace DialogueSync

/-! ### The order of recency -/

namespace Message

/-- Whether a message counts as touched after another one. -/
def NewerThan (m n : Message) : Prop :=
  n.lastTouched < m.lastTouched ∨ n.lastTouched = m.lastTouched ∧
    (n.createdAt < m.createdAt ∨ n.createdAt = m.createdAt ∧ compare m.id n.id = .lt)

instance (m n : Message) : Decidable (m.NewerThan n) :=
  inferInstanceAs (Decidable (_ ∨ _))

instance : Std.TransCmp compareRecency :=
  have : Std.TransCmp fun a b : Message => compare b.id a.id :=
    @Std.TransCmp.opposite Message (compareOn Message.id) inferInstance
  inferInstanceAs (Std.TransCmp (compareLex (compareOn lastTouched)
    (compareLex (compareOn createdAt) fun a b => compare b.id a.id)))

/-- A message comes later in the order of recency if it was touched after the other one. -/
lemma compareRecency_lt_iff {m n : Message} : n.compareRecency m = .lt ↔ m.NewerThan n := by
  have hcompare : n.compareRecency m = (compare n.lastTouched m.lastTouched).then
      ((compare n.createdAt m.createdAt).then (compare m.id n.id)) := rfl
  rw [hcompare, Ordering.then_eq_lt, Ordering.then_eq_lt, Std.compare_eq_iff_eq, Std.compare_eq_iff_eq,
    Std.compare_eq_lt (a := n.lastTouched), Std.compare_eq_lt (a := n.createdAt), NewerThan]

/-- Messages that compare as equal have the same id. -/
lemma id_eq_of_compareRecency {m n : Message} (h : n.compareRecency m = .eq) : m.id = n.id := by
  have hcompare : n.compareRecency m = (compare n.lastTouched m.lastTouched).then
      ((compare n.createdAt m.createdAt).then (compare m.id n.id)) := rfl
  rw [hcompare, Ordering.then_eq_eq, Ordering.then_eq_eq] at h
  exact Std.compare_eq_iff_eq.mp h.2.2

/-- The newest message of a list comes last in the order of recency. -/
lemma isLE_newest? {ms : List Message} {m n : Message} (h : newest? ms = some m) (hn : n ∈ ms) :
    (n.compareRecency m).isLE := by
  have hself : ∀ x : Message, (x.compareRecency x).isLE := by
    intro x
    have hx : x.compareRecency x = .eq := Std.ReflCmp.compare_self
    rw [hx]
    rfl
  induction ms generalizing m with
  | nil => cases hn
  | cons first rest ih =>
    rw [newest?] at h
    split at h
    next best hbest =>
      split at h
      next hgt =>
        obtain rfl := Option.some.inj h
        rcases List.mem_cons.mp hn with rfl | hn
        · exact hself n
        · have hbefore : best.compareRecency first = .lt :=
            Std.OrientedCmp.lt_of_gt (Ordering.isGT_iff_eq_gt.mp hgt)
          exact Std.TransCmp.isLE_trans (ih hbest hn) (Ordering.isLE_of_eq_lt hbefore)
      next hle =>
        obtain rfl := Option.some.inj h
        rcases List.mem_cons.mp hn with rfl | hn
        · rw [Ordering.isLE_iff_ne_gt, ← Ordering.isGT_iff_eq_gt]
          exact hle
        · exact ih hbest hn
    next hnone =>
      obtain rfl := Option.some.inj h
      rw [Tree.newest?_eq_none hnone] at hn
      rw [List.mem_singleton.mp hn]
      exact hself first

/-- Every other message was touched before the newest one. -/
lemma newerThan_of_newest? {ms : List Message} {m n : Message} (h : newest? ms = some m) (hn : n ∈ ms)
    (hid : n.id ≠ m.id) : m.NewerThan n := by
  rw [← compareRecency_lt_iff]
  rcases Ordering.isLE_iff_eq_lt_or_eq_eq.mp (isLE_newest? h hn) with hlt | heq
  · exact hlt
  · exact absurd (id_eq_of_compareRecency heq).symm hid

end Message

namespace Tree

variable {link : String → Option String} {ms : IdMap Message} {t : Tree} {id x : String} {m : Message}

/-! ### Ways -/

/-- What stands below a message of the tree is in the tree. -/
lemma mem_of_climb_mem {count : Nat} (hup : climb (parentIn ms) count x = some id) (hid : id ∈ ms) : x ∈ ms := by
  cases count with
  | zero =>
    obtain rfl := Option.some.inj hup
    exact hid
  | succ count =>
    rw [climb_succ, Option.bind_eq_some_iff] at hup
    obtain ⟨parent, hp, -⟩ := hup
    exact mem_of_parentIn_eq hp

/-- The way down to a message of the tree leads through the messages that it stands within. -/
lemma exists_mem_path_iff (h : IdMap.Keyed Message.id t.messages) :
    (∃ a ∈ t.path x, a.id = id) ↔ x ∈ t.messages ∧ id ∈ t.messages ∧ isWithin t.messages x id := by
  have hpath : (∃ a ∈ t.path x, a.id = id) ↔ id ∈ t.messages ∧ id ∈ lineage t.messages t.size x := by
    constructor
    · rintro ⟨a, ha, rfl⟩
      obtain ⟨y, hy, hay⟩ := List.mem_filterMap.mp (List.mem_reverse.mp ha)
      obtain rfl : a.id = y := h y a hay
      exact ⟨mem_iff_exists_getElem?.mpr ⟨a, hay⟩, hy⟩
    · rintro ⟨hid, hmet⟩
      obtain ⟨a, ha⟩ := mem_iff_exists_getElem?.mp hid
      exact ⟨a, List.mem_reverse.mpr (List.mem_filterMap.mpr ⟨id, hmet, ha⟩), h id a ha⟩
  rw [hpath, mem_lineage_iff, isWithin_iff]
  constructor
  · rintro ⟨hid, n, -, hup⟩
    exact ⟨mem_of_climb_mem hup hid, hid, n, hup⟩
  · rintro ⟨-, hid, n, hup⟩
    obtain ⟨k, hk, -, hlt⟩ := exists_climb_le_size hup
    exact ⟨hid, k, hlt hid, hk⟩

/-- The messages on the way down to an id are messages of the tree. -/
lemma get?_of_mem_path (h : IdMap.Keyed Message.id t.messages) (hm : m ∈ t.path id) :
    t.get? m.id = some m := by
  obtain ⟨x, -, hx⟩ := List.mem_filterMap.mp (List.mem_reverse.mp hm)
  rwa [h x m hx]

/-- There is a way down exactly to the messages of the tree. -/
lemma path_eq_nil_iff : t.path id = [] ↔ id ∉ t.messages := by
  rw [path, List.reverse_eq_nil_iff, List.filterMap_eq_nil_iff]
  constructor
  · intro hall hid
    obtain ⟨m, hm⟩ : ∃ m, t.get? id = some m := mem_iff_exists_getElem?.mp hid
    obtain ⟨count, hsize⟩ := Nat.exists_eq_succ_of_ne_zero (n := t.size)
      fun hzero => Std.ExtTreeMap.ne_empty_of_mem hid (Std.ExtTreeMap.eq_empty_iff_size_eq_zero.mpr hzero)
    have hself : id ∈ lineage t.messages t.size id := by
      rw [hsize]
      exact List.mem_of_mem_head? (head?_lineage t.messages count id)
    rw [hall id hself] at hm
    cases hm
  · intro hid x hx
    have hroot : parentIn t.messages id = none := by
      rw [parentIn, Std.ExtTreeMap.getElem?_eq_none hid, Option.bind_none]
    have hx : x = id := by
      cases hsize : t.size with
      | zero =>
        rw [hsize] at hx
        cases hx
      | succ count =>
        rw [hsize, lineage, hroot] at hx
        exact List.mem_singleton.mp hx
    rw [hx]
    exact Std.ExtTreeMap.getElem?_eq_none hid

/-- Looking at one message more than there are does not make the way longer. -/
lemma path_eq_lineage_succ (h : Linked t.messages) (id : String) :
    t.path id = ((lineage t.messages (t.size + 1) id).filterMap t.get?).reverse := by
  have hend : (climb (parentIn t.messages) t.size id).toList.filterMap t.get? = [] := by
    cases hup : climb (parentIn t.messages) t.size id with
    | none => rfl
    | some top =>
      have hnot : top ∉ t.messages := fun hin => Nat.lt_irrefl _ (lt_size_of_climb h.acyclic hup hin)
      have hget : t.get? top = none := Std.ExtTreeMap.getElem?_eq_none hnot
      rw [Option.toList_some, List.filterMap_cons_none hget, List.filterMap_nil]
  rw [lineage_succ, List.filterMap_append, hend, List.append_nil, path]

/-- The way down to a message is the way down to its parent, if that is in the tree, with the message behind it. -/
lemma path_eq (h : Linked t.messages) (hm : t.get? id = some m) : t.path id = m.parent.elim [] t.path ++ [m] := by
  rw [path_eq_lineage_succ h, lineage, parentIn_of_get? hm]
  cases m.parent with
  | none =>
    rw [List.filterMap_cons_some hm, List.filterMap_nil, List.reverse_singleton, Option.elim_none, List.nil_append]
  | some parent => rw [List.filterMap_cons_some hm, List.reverse_cons, Option.elim_some, path]

/-! ### Leaves -/

/-- A linked tree that is not empty has a message without children. -/
lemma exists_leaf (h : Linked ms) (hne : ms ≠ ∅) :
    ∃ (id : String) (m : Message), ms[id]? = some m ∧ m.children = [] := by
  by_contra hnone
  -- Below every message there would be another one, and so ways up of any length.
  have hdeep : ∀ count, ∃ y ∈ ms, ∃ top, climb (parentIn ms) count y = some top := by
    intro count
    induction count with
    | zero =>
      rw [Ne, Std.ExtTreeMap.eq_empty_iff_forall_not_mem, not_forall_not] at hne
      obtain ⟨y, hy⟩ := hne
      exact ⟨y, hy, y, rfl⟩
    | succ count ih =>
      obtain ⟨y, hy, top, hup⟩ := ih
      obtain ⟨m, hm⟩ := mem_iff_exists_getElem?.mp hy
      obtain ⟨child, hchild⟩ := List.exists_mem_of_ne_nil m.children fun hnil => hnone ⟨y, m, hm, hnil⟩
      rw [h.children_eq y m hm, mem_childrenIn_iff h.keyed] at hchild
      refine ⟨child, mem_of_parentIn_eq hchild, top, ?_⟩
      rw [climb_succ, hchild, Option.bind_some, hup]
  obtain ⟨y, -, top, hup⟩ := hdeep (ms.size + 1)
  rw [climb_size_succ h.acyclic] at hup
  cases hup

/-- In a linked tree the ids of leaves are those of the messages without children. -/
lemma mem_leaves_iff_exists (h : Linked t.messages) : id ∈ t.leaves ↔ ∃ m, t.get? id = some m ∧ m.children = [] := by
  rw [leaves, mem_keys_filter]
  refine exists_congr fun m => and_congr_right fun hm => ?_
  rw [isLeaf, List.all_eq_true]
  constructor
  · intro hall
    refine List.eq_nil_iff_forall_not_mem.mpr ?_
    intro child hchild
    have hin : t.contains child := by
      rw [h.children_eq id m hm, mem_childrenIn_iff h.keyed] at hchild
      exact mem_of_parentIn_eq hchild
    simpa [hin] using hall child hchild
  · rintro hnil child hchild
    rw [hnil] at hchild
    cases hchild

/-- In a linked tree the leaves are the messages without children. -/
lemma mem_leaves_iff (h : Linked t.messages) :
    m ∈ t.leaves.filterMap t.get? ↔ t.get? m.id = some m ∧ m.children = [] := by
  rw [List.mem_filterMap]
  constructor
  · rintro ⟨x, hx, hm⟩
    obtain rfl : m.id = x := h.keyed x m hm
    obtain ⟨n, hn, hnil⟩ := (mem_leaves_iff_exists h).mp hx
    obtain rfl := Option.some.inj (hm.symm.trans hn)
    exact ⟨hm, hnil⟩
  · rintro ⟨hm, hnil⟩
    exact ⟨m.id, (mem_leaves_iff_exists h).mpr ⟨m, hm, hnil⟩, hm⟩

/-- The message is the leaf of the tree that was touched last. -/
structure LastLeaf (t : Tree) (m : Message) : Prop where
  /-- The message is in the tree. -/
  get?_eq : t.get? m.id = some m
  /-- It has no children. -/
  children_eq : m.children = []
  /-- It was touched after every other message without children. -/
  newerThan : ∀ n, t.get? n.id = some n → n.children = [] → n.id ≠ m.id → m.NewerThan n

/-- The newest of the leaves is the last one; there is none only if the tree is empty. -/
lemma newest?_leaves_cases (h : Linked t.messages) :
    (t.messages = ∅ ∧ Message.newest? (t.leaves.filterMap t.get?) = none) ∨
      ∃ m, t.LastLeaf m ∧ Message.newest? (t.leaves.filterMap t.get?) = some m := by
  cases hnewest : Message.newest? (t.leaves.filterMap t.get?) with
  | some m =>
    obtain ⟨hm, hnil⟩ := (mem_leaves_iff h).mp (mem_of_newest? hnewest)
    refine Or.inr ⟨m, ⟨hm, hnil, ?_⟩, rfl⟩
    intro n hn hnil' hne
    exact Message.newerThan_of_newest? hnewest ((mem_leaves_iff h).mpr ⟨hn, hnil'⟩) hne
  | none =>
    refine Or.inl ⟨by_contra fun hne => ?_, rfl⟩
    obtain ⟨x, m, hm, hnil⟩ := exists_leaf h hne
    have hmem : m ∈ t.leaves.filterMap t.get? := (mem_leaves_iff h).mpr ⟨h.keyed x m hm ▸ hm, hnil⟩
    rw [newest?_eq_none hnewest] at hmem
    cases hmem

/-- The preferred message is chosen if it is in the tree, otherwise the leaf that was touched last, and nothing only
if the tree is empty. -/
lemma resolve_cases (h : Linked t.messages) (preferred : Option String) :
    (∃ id, preferred = some id ∧ t.contains id ∧ t.resolve preferred = some id) ∨
      (∀ id, preferred = some id → ¬ t.contains id) ∧
        (t.messages = ∅ ∧ t.resolve preferred = none ∨
          ∃ m, t.LastLeaf m ∧ t.resolve preferred = some m.id) := by
  cases hpreferred : preferred.filter t.contains with
  | some id =>
    obtain ⟨hid, hin⟩ := Option.filter_eq_some_iff.mp hpreferred
    refine Or.inl ⟨id, hid, hin, ?_⟩
    rw [resolve, hpreferred, Option.some_or]
  | none =>
    refine Or.inr ⟨fun id hid => Option.filter_eq_none_iff.mp hpreferred id hid, ?_⟩
    rw [resolve, hpreferred, Option.none_or]
    rcases newest?_leaves_cases h with ⟨hempty, hnewest⟩ | ⟨m, hlast, hnewest⟩
    · refine Or.inl ⟨hempty, ?_⟩
      rw [hnewest, hempty]
      rfl
    · refine Or.inr ⟨m, hlast, ?_⟩
      rw [hnewest, Option.some_or, Option.map_some]

end Tree

end DialogueSync
