import DialogueSync.Proofs.Tree.Siblings
import DialogueSync.Tree.Navigate

/-!
# Families

The messages of a tree fall into families: those without a parent in the tree form one, and the children of each
message another one. Lists of children are kept beside the parent links and the list of roots is made when it is asked
for, but they fit together: every message stands in exactly one of these lists (`count_families`), and the siblings of
a message are the list it stands in (`mem_siblings_iff`).
-/

namespace DialogueSync.Tree

variable {t : Tree} {id x : String}

/-- The parent that a message names, if it is in the tree. -/
def presentParent (t : Tree) (id : String) : Option String :=
  (parentIn t.messages id).filter t.contains

/-- A parent is present if it is named, and there. -/
lemma presentParent_eq_some_iff {parent : String} :
    t.presentParent id = some parent ↔ parentIn t.messages id = some parent ∧ t.contains parent :=
  Option.filter_eq_some_iff

/-! ### Roots -/

/-- The roots are the messages whose parent is not in the tree. -/
lemma mem_roots_iff (h : IdMap.Keyed Message.id t.messages) :
    id ∈ t.roots ↔ t.contains id ∧ t.presentParent id = none := by
  have hroot : ∀ {x m}, t.get? x = some m → (t.isRoot m ↔ t.presentParent x = none) := by
    intro x m hm
    rw [isRoot, presentParent, parentIn_of_get? hm]
    cases m.parent <;> simp
  rw [roots, Rank.mem_sortIds]
  constructor
  · rintro ⟨x, hx, r, hr, rfl⟩
    obtain ⟨m, hm, hin⟩ := mem_keys_filter.mp hx
    rw [rankIn, hm] at hr
    obtain rfl := Option.some.inj hr
    obtain rfl : m.id = x := h x m hm
    exact ⟨contains_iff_exists_get?.mpr ⟨m, hm⟩, (hroot hm).mp hin⟩
  · rintro ⟨hid, hparent⟩
    obtain ⟨m, hm⟩ := contains_iff_exists_get?.mp hid
    refine ⟨id, mem_keys_filter.mpr ⟨m, hm, (hroot hm).mpr hparent⟩, m.rank, ?_, h id m hm⟩
    rw [rankIn, show t.messages[id]? = some m from hm, Option.map_some]

/-- The roots stand in sibling order. -/
lemma pairwise_roots (h : IdMap.Keyed Message.id t.messages) : t.roots.Pairwise t.Before := by
  refine (Rank.pairwise_sortIds ?_ _).imp ?_
  · intro x r hr
    obtain ⟨m, hm, rfl⟩ := Option.map_eq_some_iff.mp hr
    exact h x m hm
  · rintro a b ⟨r, r', hr, hr', hlt⟩
    obtain ⟨m, hm, rfl⟩ := Option.map_eq_some_iff.mp hr
    obtain ⟨n, hn, rfl⟩ := Option.map_eq_some_iff.mp hr'
    exact ⟨m, n, hm, hn, hlt⟩

/-! ### The family of a message -/

/-- The siblings of a message are the children of its parent, or the roots. -/
lemma siblings_eq (h : Linked t.messages) (hid : t.contains id) :
    t.siblings id = (t.presentParent id).elim t.roots (childrenIn t.messages) := by
  obtain ⟨m, hm⟩ := contains_iff_exists_get?.mp hid
  simp only [siblings, hm]
  rw [presentParent, parentIn_of_get? hm]
  cases m.parent with
  | none => rfl
  | some parent =>
    rw [Option.bind_some, Option.filter_some]
    cases hget : t.get? parent with
    | none =>
      have hnot : ¬ t.contains parent := by
        rw [contains_iff_exists_get?]
        rintro ⟨n, hn⟩
        cases hget.symm.trans hn
      rw [if_neg hnot]
      rfl
    | some n =>
      rw [if_pos (contains_iff_exists_get?.mpr ⟨n, hget⟩), Option.elim_some]
      exact h.children_eq parent n hget

/-- The siblings of a message are the messages that have the same parent in the tree, or none like it. -/
lemma mem_siblings_iff (h : Linked t.messages) (hid : t.contains id) :
    x ∈ t.siblings id ↔ t.contains x ∧ t.presentParent x = t.presentParent id := by
  rw [siblings_eq h hid]
  cases hp : t.presentParent id with
  | none => exact mem_roots_iff h.keyed
  | some parent =>
    have hin : t.contains parent := (presentParent_eq_some_iff.mp hp).2
    rw [Option.elim_some, mem_childrenIn_iff h.keyed, presentParent_eq_some_iff]
    constructor
    · intro hlink
      exact ⟨mem_of_parentIn_eq hlink, hlink, hin⟩
    · rintro ⟨-, hlink, -⟩
      exact hlink

/-- Siblings stand in sibling order. -/
lemma pairwise_siblings (h : Linked t.messages) (hid : t.contains id) : (t.siblings id).Pairwise t.Before := by
  rw [siblings_eq h hid]
  cases t.presentParent id with
  | none => exact pairwise_roots h.keyed
  | some parent => exact pairwise_before_childrenIn h.keyed parent

/-! ### All families -/

/-- The roots, followed by the children of every message. -/
def families (t : Tree) : List String :=
  t.roots ++ t.messages.values.flatMap Message.children

/-- A child in some list of children is a message whose parent is in the tree. -/
lemma mem_flatMap_children_iff (h : Linked t.messages) :
    id ∈ t.messages.values.flatMap Message.children ↔ ∃ parent, t.presentParent id = some parent := by
  rw [List.mem_flatMap]
  constructor
  · rintro ⟨m, hm, hchild⟩
    obtain ⟨parent, hparent⟩ := mem_values_iff.mp hm
    rw [h.children_eq parent m hparent, mem_childrenIn_iff h.keyed] at hchild
    exact ⟨parent, presentParent_eq_some_iff.mpr ⟨hchild, contains_iff_exists_get?.mpr ⟨m, hparent⟩⟩⟩
  · rintro ⟨parent, hparent⟩
    obtain ⟨hlink, hin⟩ := presentParent_eq_some_iff.mp hparent
    obtain ⟨m, hm⟩ := contains_iff_exists_get?.mp hin
    refine ⟨m, mem_values_iff.mpr ⟨parent, hm⟩, ?_⟩
    rw [h.children_eq parent m hm, mem_childrenIn_iff h.keyed, hlink]

/-- Every message of a linked tree stands in one family. -/
lemma mem_families_iff (h : Linked t.messages) : id ∈ t.families ↔ t.contains id := by
  rw [families, List.mem_append, mem_roots_iff h.keyed, mem_flatMap_children_iff h]
  constructor
  · rintro (⟨hid, -⟩ | ⟨parent, hparent⟩)
    · exact hid
    · exact mem_of_parentIn_eq (presentParent_eq_some_iff.mp hparent).1
  · intro hid
    cases hp : t.presentParent id with
    | none => exact Or.inl ⟨hid, rfl⟩
    | some parent => exact Or.inr ⟨parent, rfl⟩

/-- No message of a linked tree stands twice in the families. -/
lemma nodup_families (h : Linked t.messages) : t.families.Nodup := by
  refine List.nodup_append.mpr ⟨nodup_of_pairwise_before (pairwise_roots h.keyed), ?_, ?_⟩
  · refine List.nodup_flatMap.mpr ⟨?_, ?_⟩
    · intro m hm
      obtain ⟨parent, hparent⟩ := mem_values_iff.mp hm
      exact nodup_of_pairwise_before (h.pairwise_children hparent)
    · have hids : (t.messages.values.map Message.id).Nodup := by
        rw [IdMap.map_values h.keyed]
        exact Std.ExtTreeMap.nodup_keys
      refine (List.pairwise_map.mp hids).imp_of_mem ?_
      intro m n hm hn hne child hchild hchild'
      -- A child of two messages would name both as its parent.
      obtain ⟨c, hc, hparent⟩ := (h.mem_children_iff (h.get?_of_mem_values hm)).mp hchild
      obtain ⟨c', hc', hparent'⟩ := (h.mem_children_iff (h.get?_of_mem_values hn)).mp hchild'
      obtain rfl := Option.some.inj (hc.symm.trans hc')
      exact hne (Option.some.inj (hparent.symm.trans hparent'))
  · rintro a ha b hb rfl
    obtain ⟨parent, hparent⟩ := (mem_flatMap_children_iff h).mp hb
    rw [((mem_roots_iff h.keyed).mp ha).2] at hparent
    cases hparent

/-- Every message of a linked tree stands in the families once, and nothing else does. -/
lemma count_families (h : Linked t.messages) (id : String) :
    t.families.count id = if t.contains id then 1 else 0 := by
  split
  next hid => exact List.count_eq_one_of_mem (nodup_families h) ((mem_families_iff h).mpr hid)
  next hid => exact List.count_eq_zero.mpr fun hmem => hid ((mem_families_iff h).mp hmem)

/-- The messages of a tree fall into families of siblings. -/
structure Partitioned (t : Tree) : Prop where
  /-- Every message stands once in the roots and the lists of children, and nothing else does. -/
  count_eq : ∀ id, (t.roots ++ t.messages.values.flatMap Message.children).count id = if t.contains id then 1 else 0
  /-- A message is one of its siblings. -/
  mem_siblings_self : ∀ id, t.contains id → id ∈ t.siblings id
  /-- Siblings have the same siblings. -/
  siblings_eq_of_mem : ∀ id, t.contains id → ∀ x ∈ t.siblings id, t.siblings x = t.siblings id
  /-- The siblings of a message are the messages that have the same parent in the tree, or none like it. -/
  mem_siblings_iff : ∀ id, t.contains id →
    ∀ x, x ∈ t.siblings id ↔ t.contains x ∧ t.presentParent x = t.presentParent id
  /-- Siblings stand in strictly increasing sibling order. -/
  pairwise_siblings : ∀ id, t.contains id → (t.siblings id).Pairwise t.Before

/-- The messages of a tree that comes about fall into families, and the siblings of a message are its family. -/
theorem partitioned_of_reachable (h : Reachable t) : t.Partitioned := by
  have hlinked := h.linked
  constructor
  case count_eq => exact count_families hlinked
  case mem_siblings_self =>
    intro id hid
    exact (mem_siblings_iff hlinked hid).mpr ⟨hid, rfl⟩
  case siblings_eq_of_mem =>
    intro id hid x hx
    obtain ⟨hin, hparent⟩ := (mem_siblings_iff hlinked hid).mp hx
    rw [siblings_eq hlinked hin, siblings_eq hlinked hid, hparent]
  case mem_siblings_iff => exact fun id hid x => mem_siblings_iff hlinked hid
  case pairwise_siblings => exact fun id hid => pairwise_siblings hlinked hid

/-- In the rearranged tree the awaited message is the only root, and the two messages that name it are siblings. -/
theorem partitioned_rearranged : rearranged.Partitioned ∧ rearranged.roots = ["c"] ∧
    rearranged.siblings "a" = ["a", "d"] ∧ rearranged.siblings "d" = ["a", "d"] := by
  have hcircle : Reachable circleAndWaiting := Reachable.ofMessages _ _
  exact ⟨partitioned_of_reachable ((hcircle.edit _).edit _), by decide +kernel, by decide +kernel, by decide +kernel⟩

end DialogueSync.Tree
