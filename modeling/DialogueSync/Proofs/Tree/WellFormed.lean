import DialogueSync.Proofs.Rank
import DialogueSync.Proofs.Tree.Cycles
import DialogueSync.Tree.Build

/-!
# Well-formed trees

A tree is `WellFormed` if its messages are stored under their own ids, no parent links run in a circle, the
lists of children are those derived from the parent links, and the selected message is there unless the
tree is empty.

Building a tree from loose messages gives a well-formed one, whatever the messages are
(`wellFormed_ofMessages`), and takes no more from a message than its list of children and a link on a
circle (`exists_of_get?_ofIdMap`). A well-formed tree is built again from its own messages
(`WellFormed.ofMessages_eq`).
-/

namespace DialogueSync.Tree

/-- Messages stored under their own ids, without circles of parent links, and each with the children that
follow from the parent links. -/
structure Linked (ms : IdMap Message) : Prop where
  /-- Every message is stored under its own id. -/
  keyed : IdMap.Keyed Message.id ms
  /-- No way up comes back to where it started. -/
  acyclic : ∀ id, ¬ Circular (parentIn ms) id
  /-- The children of a message are those that name it as their parent, in sibling order. -/
  children_eq : ∀ (id : String) (m : Message), ms[id]? = some m → m.children = childrenIn ms id

/-- A linked tree whose selected message is there, with nothing selected only if the tree is empty. -/
structure WellFormed (t : Tree) : Prop extends Linked t.messages where
  /-- What is selected is there. -/
  mem_of_current : ∀ id, t.current = some id → id ∈ t.messages
  /-- Something is selected if there is any message. -/
  eq_empty_of_current : t.current = none → t.messages = ∅

/-! ### Children -/

/-- A rank is sorted in among the children of an id if a message that names the id as its parent has it. -/
lemma exists_rankIn_iff {ms : IdMap Message} {id : String} {r : Rank} :
    (∃ child ∈ (ms.filter fun _ m => m.parent = some id).keys, rankIn ms child = some r) ↔
      ∃ (child : String) (m : Message),
        ms[child]? = some m ∧ m.parent = some id ∧ m.rank = r := by
  constructor
  · rintro ⟨child, hchild, hr⟩
    obtain ⟨m, hm, hp⟩ := mem_keys_filter.mp hchild
    rw [rankIn, hm] at hr
    exact ⟨child, m, hm, by simpa using hp, Option.some.inj hr⟩
  · rintro ⟨child, m, hm, hp, rfl⟩
    refine ⟨child, mem_keys_filter.mpr ⟨m, hm, by simpa using hp⟩, ?_⟩
    rw [rankIn, hm, Option.map_some]

/-- The derived children of an id are the messages that name it as their parent. -/
lemma mem_childrenIn_iff {ms : IdMap Message} (h : IdMap.Keyed Message.id ms) {id child : String} :
    child ∈ childrenIn ms id ↔ parentIn ms child = some id := by
  rw [childrenIn, Rank.mem_sortIds]
  constructor
  · rintro ⟨x, hx, r, hr, rfl⟩
    obtain ⟨y, m, hm, hp, rfl⟩ := exists_rankIn_iff.mp ⟨x, hx, hr⟩
    have hid : m.rank.id = y := h y m hm
    rw [hid, parentIn, hm, Option.bind_some, hp]
  · intro hp
    obtain ⟨m, hm, hp⟩ := Option.bind_eq_some_iff.mp hp
    obtain ⟨x, hx, hr⟩ := exists_rankIn_iff.mpr ⟨child, m, hm, hp, rfl⟩
    exact ⟨x, hx, m.rank, hr, h child m hm⟩

/-- The derived children of an id stand in sibling order. -/
lemma pairwise_childrenIn {ms : IdMap Message} (h : IdMap.Keyed Message.id ms) (id : String) :
    (childrenIn ms id).Pairwise fun a b =>
      ∃ r r', rankIn ms a = some r ∧ rankIn ms b = some r' ∧ compare r r' = .lt := by
  refine Rank.pairwise_sortIds (fun x r hr => ?_) _
  obtain ⟨m, hm, rfl⟩ := Option.map_eq_some_iff.mp hr
  exact h x m hm

/-- The derived children of an id depend only on the ranks of the messages that name it as their parent. -/
lemma childrenIn_congr {ms ms' : IdMap Message} {id : String}
    (h : ∀ (child : String) (r : Rank),
      (∃ m : Message, ms[child]? = some m ∧ m.parent = some id ∧ m.rank = r) ↔
        ∃ m : Message, ms'[child]? = some m ∧ m.parent = some id ∧ m.rank = r) :
    childrenIn ms id = childrenIn ms' id := by
  refine Rank.sortIds_congr fun r => ?_
  rw [exists_rankIn_iff, exists_rankIn_iff]
  exact exists_congr fun child => h child r

section Children

variable {ms ms' : IdMap Message} {children : String → Message → List String}
  (h : ∀ id : String, ms'[id]? = ms[id]?.map fun m => { m with children := children id m })
include h

/-- The derived children of an id do not change with the lists of children that the messages carry. -/
lemma childrenIn_eq_of_children (id : String) : childrenIn ms' id = childrenIn ms id := by
  refine childrenIn_congr fun child r => ?_
  rw [h]
  cases ms[child]? with
  | none => simp
  | some m => simp [Message.rank]

/-- Once all children are derived, the lists that the messages carried before do not matter. -/
lemma relinkAll_eq_of_children : relinkAll ms' = relinkAll ms := by
  refine Std.ExtTreeMap.ext_getElem? fun {id} => ?_
  rw [getElem?_relinkAll, getElem?_relinkAll, childrenIn_eq_of_children h, h, Option.map_map]
  rfl

end Children

/-- Deriving the children leaves them derived. -/
lemma childrenIn_relinkAll (ms : IdMap Message) (id : String) :
    childrenIn (relinkAll ms) id = childrenIn ms id :=
  childrenIn_eq_of_children (getElem?_relinkAll ms) id

/-- Deriving the children again changes nothing. -/
lemma Linked.relinkAll_eq_self {ms : IdMap Message} (h : Linked ms) : relinkAll ms = ms := by
  refine Std.ExtTreeMap.ext_getElem? fun {id} => ?_
  rw [getElem?_relinkAll]
  cases hm : ms[id]? with
  | none => rfl
  | some m => rw [Option.map_some, ← h.children_eq id m hm]

/-- Messages under their own ids and without circles are linked once their children are derived. -/
lemma linked_relinkAll {ms : IdMap Message} (hkeyed : IdMap.Keyed Message.id ms)
    (hacyclic : ∀ id, ¬ Circular (parentIn ms) id) : Linked (relinkAll ms) where
  keyed id m hm := by
    rw [getElem?_relinkAll, Option.map_eq_some_iff] at hm
    obtain ⟨m', hm', rfl⟩ := hm
    exact hkeyed id m' hm'
  acyclic id := by
    rw [show parentIn (relinkAll ms) = parentIn ms from funext (parentIn_relinkAll ms)]
    exact hacyclic id
  children_eq id m hm := by
    rw [getElem?_relinkAll, Option.map_eq_some_iff] at hm
    obtain ⟨m', -, rfl⟩ := hm
    exact (childrenIn_relinkAll ms id).symm

/-- What is cut stays under its own ids. -/
lemma IsCutOf.keyed {cut ms : IdMap Message} (h : IsCutOf cut ms)
    (hkeyed : IdMap.Keyed Message.id ms) : IdMap.Keyed Message.id cut := by
  intro id m hm
  rcases h id with heq | ⟨-, heq⟩
  · exact hkeyed id m (heq ▸ hm)
  · rw [heq, Option.map_eq_some_iff] at hm
    obtain ⟨m', hm', rfl⟩ := hm
    exact hkeyed id m' hm'

/-! ### The selected message -/

/-- The newest message is one of those that were looked at. -/
lemma mem_of_newest? {ms : List Message} {m : Message} (h : Message.newest? ms = some m) : m ∈ ms := by
  induction ms generalizing m with
  | nil => cases h
  | cons first rest ih =>
    rw [Message.newest?] at h
    split at h
    next best hbest =>
      split at h
      · obtain rfl := Option.some.inj h
        exact List.mem_cons_self
      · obtain rfl := Option.some.inj h
        exact List.mem_cons_of_mem _ (ih hbest)
    next =>
      obtain rfl := Option.some.inj h
      exact List.mem_cons_self

lemma newest?_eq_none {ms : List Message} (h : Message.newest? ms = none) : ms = [] := by
  cases ms with
  | nil => rfl
  | cons first rest =>
    rw [Message.newest?] at h
    split at h
    · split at h <;> cases h
    · cases h

/-- The ids of the messages are in the map. -/
lemma id_mem_of_mem_values {ms : IdMap Message} (hkeyed : IdMap.Keyed Message.id ms) {m : Message}
    (hm : m ∈ ms.values) : m.id ∈ ms := by
  obtain ⟨id, hid⟩ := mem_values_iff.mp hm
  rw [hkeyed id m hid, mem_iff_exists_getElem?]
  exact ⟨m, hid⟩

/-- The chosen message is there. -/
lemma mem_of_resolve {t : Tree} (hkeyed : IdMap.Keyed Message.id t.messages)
    {preferred : Option String} {id : String} (h : t.resolve preferred = some id) :
    id ∈ t.messages := by
  rw [resolve, Option.or_eq_some_iff] at h
  rcases h with h | ⟨-, h⟩
  · exact (Option.filter_eq_some_iff.mp h).2
  · obtain ⟨m, hm, rfl⟩ := Option.map_eq_some_iff.mp h
    refine id_mem_of_mem_values hkeyed ?_
    rcases Option.or_eq_some_iff.mp hm with hm | ⟨-, hm⟩
    · obtain ⟨leaf, -, hleaf⟩ := List.mem_filterMap.mp (mem_of_newest? hm)
      exact mem_values_iff.mpr ⟨leaf, hleaf⟩
    · exact mem_of_newest? hm

/-- Nothing is chosen only from an empty tree. -/
lemma eq_empty_of_resolve {t : Tree} {preferred : Option String} (h : t.resolve preferred = none) :
    t.messages = ∅ := by
  rw [resolve, Option.or_eq_none_iff, Option.map_eq_none_iff, Option.or_eq_none_iff] at h
  have hvalues := newest?_eq_none h.2.2
  rw [Std.ExtTreeMap.eq_empty_iff_size_eq_zero, ← length_values, hvalues, List.length_nil]

/-- A linked tree is well-formed after its selection is repaired. -/
lemma wellFormed_repair {t : Tree} (h : Linked t.messages) : t.repair.WellFormed where
  toLinked := h
  mem_of_current _ := mem_of_resolve h.keyed
  eq_empty_of_current := eq_empty_of_resolve

/-- A well-formed tree has the message selected that is chosen anyway. -/
lemma WellFormed.repair_eq_self {t : Tree} (h : t.WellFormed) : t.repair = t := by
  have hres : t.resolve t.current = t.current := by
    cases hc : t.current with
    | some id =>
      have hid : t.contains id := h.mem_of_current id hc
      rw [resolve, Option.filter_some, if_pos hid, Option.some_or]
    | none =>
      have hempty := h.eq_empty_of_current hc
      cases hr : t.resolve none with
      | none => rfl
      | some id =>
        have hid := mem_of_resolve h.keyed hr
        rw [hempty] at hid
        exact absurd hid Std.ExtTreeMap.not_mem_empty
  rw [repair, hres]

/-! ### Building -/

variable {ms : IdMap Message} {current : Option String}

/-- A tree built from messages under their own ids is well-formed. -/
lemma wellFormed_ofIdMap (h : IdMap.Keyed Message.id ms) (current : Option String) :
    (ofIdMap ms current).WellFormed :=
  wellFormed_repair
    (linked_relinkAll ((isCutOf_cutCycles ms).keyed h) (not_circular_cutCycles ms))

/-- A tree built from any messages is well-formed. -/
theorem wellFormed_ofMessages (ms : List Message) (current : Option String) :
    (ofMessages ms current).WellFormed :=
  wellFormed_ofIdMap (IdMap.keyed_collect ms) current

/-- The tree of a history is well-formed, whatever the history is. -/
theorem wellFormed_ofHistory (h : History) : (ofHistory h).WellFormed :=
  wellFormed_ofMessages _ _

/-- Building a tree from linked messages does no more than to choose the selected one. -/
lemma Linked.ofIdMap_eq_repair (h : Linked ms) (current : Option String) :
    ofIdMap ms current = repair ⟨ms, current⟩ := by
  rw [ofIdMap, cutCycles_eq_self h.acyclic, h.relinkAll_eq_self]

/-- Building a tree again from linked messages gives these messages. -/
lemma Linked.messages_ofIdMap (h : Linked ms) (current : Option String) :
    (ofIdMap ms current).messages = ms :=
  congrArg Tree.messages (h.ofIdMap_eq_repair current)

/-- The written form of a linked tree has its messages. -/
lemma Linked.messages_ofHistory {t : Tree} (h : Linked t.messages) :
    (ofHistory t.toHistory).messages = t.messages := by
  change (ofIdMap (IdMap.collect Message.id t.messages.values) t.current).messages = t.messages
  rw [IdMap.collect_values h.keyed, h.messages_ofIdMap]

/-- A list of messages that collects to those of a linked tree builds that tree, with its selection repaired. -/
lemma Linked.ofMessages_eq_repair {t : Tree} (h : Linked t.messages) {xs : List Message}
    (hxs : IdMap.collect Message.id xs = t.messages) : ofMessages xs t.current = t.repair := by
  rw [ofMessages, hxs]
  exact h.ofIdMap_eq_repair t.current

/-- A list of messages that collects to those of a well-formed tree builds that tree. -/
lemma WellFormed.ofMessages_eq {t : Tree} (h : t.WellFormed) {xs : List Message}
    (hxs : IdMap.collect Message.id xs = t.messages) : ofMessages xs t.current = t :=
  (h.toLinked.ofMessages_eq_repair hxs).trans h.repair_eq_self

/-- The written form of a well-formed tree gives it back. -/
lemma WellFormed.ofHistory_toHistory {t : Tree} (h : t.WellFormed) : ofHistory t.toHistory = t :=
  h.ofMessages_eq (IdMap.collect_values h.keyed)

/-- A message of a built tree comes from the one with its id, and differs from it at most in its list of
children, and in its parent if that link lay on a circle. -/
lemma exists_of_get?_ofIdMap {id : String} {m : Message} (h : (ofIdMap ms current).get? id = some m) :
    ∃ src : Message, ms[id]? = some src ∧
      (m.parent = src.parent ∨ Circular (parentIn ms) id ∧ m.parent = none) ∧
      m = { src with parent := m.parent, children := m.children } := by
  change (relinkAll (cutCycles ms))[id]? = some m at h
  rw [getElem?_relinkAll, Option.map_eq_some_iff] at h
  obtain ⟨cut, hcut, rfl⟩ := h
  rcases isCutOf_cutCycles ms id with heq | ⟨hc, heq⟩
  · exact ⟨cut, heq ▸ hcut, Or.inl rfl, rfl⟩
  · rw [heq, Option.map_eq_some_iff] at hcut
    obtain ⟨src, hsrc, rfl⟩ := hcut
    exact ⟨src, hsrc, Or.inr ⟨hc, rfl⟩, rfl⟩

/-- A built tree has the ids of the messages that it is built from. -/
lemma mem_ofIdMap_iff {id : String} : id ∈ (ofIdMap ms current).messages ↔ id ∈ ms := by
  change id ∈ relinkAll (cutCycles ms) ↔ id ∈ ms
  rw [relinkAll, Std.ExtTreeMap.mem_map, Std.ExtTreeMap.mem_iff_isSome_getElem?,
    Std.ExtTreeMap.mem_iff_isSome_getElem?]
  rcases isCutOf_cutCycles ms id with heq | ⟨-, heq⟩
  · rw [heq]
  · rw [heq, Option.isSome_map]

/-- A built tree has the parents that are left when the circles are cut. -/
lemma parentIn_ofIdMap : parentIn (ofIdMap ms current).messages = parentIn (cutCycles ms) :=
  funext (parentIn_relinkAll (cutCycles ms))

end DialogueSync.Tree
