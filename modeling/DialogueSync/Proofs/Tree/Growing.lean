import DialogueSync.Proofs.Tree.Grounded
import DialogueSync.Proofs.Tree.Loading

/-!
# Trees that grow message by message

Messages that are placed one after the other into an empty tree, each after its parent, are all accepted
(`foldlM_place`), and what comes about is the tree that is built from all of them at once, whatever the order was
(`grows_into_ofMessages`). Such an order exists if no parents run in a circle and none is missing: the messages can be
sorted by the length of the way up (`exists_parentsFirst`).
-/

namespace DialogueSync.Tree

variable {ms before : List Message} {id parent : String} {m : Message}

/-! ### Orders in which parents come first -/

/-- Every message of the list comes after the one that it names as its parent. -/
def ParentsFirst (ms : List Message) : Prop :=
  ∀ before m after, ms = before ++ m :: after → ∀ parent, m.parent = some parent → ∃ p ∈ before, p.id = parent

/-- Each message comes behind its parent if it names one. -/
lemma parentsFirst_iff : ParentsFirst ms ↔
    ∀ n < ms.length, ∀ m ∈ ms[n]?, ∀ parent ∈ m.parent, ∃ p ∈ ms.take n, p.id = parent := by
  constructor
  · intro h n hn m hm parent hparent
    obtain ⟨hlt, rfl⟩ := List.getElem?_eq_some_iff.mp hm
    exact h (ms.take n) ms[n] (ms.drop (n + 1)) (by simp) parent hparent
  · rintro h before m after rfl parent hparent
    have hn : before.length < (before ++ m :: after).length := by simp
    have hfound := h before.length hn m (by simp) parent hparent
    rwa [List.take_left] at hfound

instance (ms : List Message) : Decidable (ParentsFirst ms) :=
  decidable_of_iff _ parentsFirst_iff.symm

/-- Where there is no circle, the way up from a parent is shorter. -/
lemma length_lineage_lt {ms : IdMap Message} (hacyclic : ∀ id, ¬ Circular (parentIn ms) id)
    (hp : parentIn ms id = some parent) :
    (lineage ms (ms.size + 1) parent).length < (lineage ms (ms.size + 1) id).length := by
  have hend : climb (parentIn ms) ms.size parent = none := by
    have hup := climb_size_succ hacyclic id
    rwa [climb_succ, hp, Option.bind_some] at hup
  rw [lineage_succ, hend, Option.toList_none, List.append_nil, lineage, hp]
  exact Nat.lt_succ_self _

/-- Messages with different ids, no circle and no parent missing can be put into an order in which parents come
first. -/
lemma exists_parentsFirst (hids : (ms.map Message.id).Nodup)
    (hparents : ∀ m ∈ ms, ∀ parent, m.parent = some parent → ∃ p ∈ ms, p.id = parent)
    (hacyclic : ∀ id, ¬ Circular (parentAmong ms) id) : ∃ ms', ms'.Perm ms ∧ ParentsFirst ms' := by
  let collected := IdMap.collect Message.id ms
  let depth : Message → Nat := fun m => (lineage collected (collected.size + 1) m.id).length
  let sorted := ms.mergeSort fun a b => depth a ≤ depth b
  have hperm : sorted.Perm ms := List.mergeSort_perm ms _
  refine ⟨sorted, hperm, ?_⟩
  intro before m after hsplit parent hparent
  have hm : m ∈ ms := hperm.mem_iff.mp (hsplit ▸ List.mem_append_right before List.mem_cons_self)
  obtain ⟨p, hp, rfl⟩ := hparents m hm parent hparent
  have hlt : depth p < depth m := by
    refine length_lineage_lt ?_ ?_
    · rwa [parentIn_collect hids]
    · rw [parentIn, (getElem?_collect_eq_some_iff hids).mpr ⟨hm, rfl⟩, Option.bind_some, hparent]
  have hpairs : sorted.Pairwise fun a b => depth a ≤ depth b := by
    refine (List.pairwise_mergeSort ?_ ?_ ms).imp of_decide_eq_true
    · simp only [decide_eq_true_eq]
      exact fun a b c => Nat.le_trans
    · simp only [Bool.or_eq_true, decide_eq_true_eq]
      exact fun a b => Nat.le_total _ _
  rw [hsplit] at hpairs
  obtain ⟨hafter, -⟩ := List.pairwise_cons.mp (List.pairwise_append.mp hpairs).2.1
  have hin : p ∈ before ++ m :: after := hsplit ▸ hperm.mem_iff.mpr hp
  rcases List.mem_append.mp hin with hbefore | hrest
  · exact ⟨p, hbefore, rfl⟩
  · rcases List.mem_cons.mp hrest with rfl | hin
    · exact absurd hlt (Nat.lt_irrefl _)
    · exact absurd hlt (Nat.not_lt.mpr (hafter p hin))

/-! ### Placing one message after the other -/

/-- The tree of the messages that have been placed so far. -/
def grown (ms : List Message) : Tree :=
  ⟨relinkAll (IdMap.collect Message.id ms), none⟩

lemma grown_nil : grown [] = {} := by
  rw [grown, IdMap.collect_nil]
  simp [relinkAll]

/-- The tree has the ids of the messages that have been placed. -/
lemma mem_grown_iff : id ∈ (grown before).messages ↔ ∃ p ∈ before, p.id = id := by
  rw [grown, relinkAll, Std.ExtTreeMap.mem_map, IdMap.mem_collect]

/-- When a message is put in and all children are derived, the children that were derived before do not count. -/
lemma relinkAll_insert_relinkAll (ms : IdMap Message) (m : Message) :
    relinkAll ((relinkAll ms).insert m.id m) = relinkAll (ms.insert m.id m) := by
  let children : String → Message → List String := fun x n => if m.id = x then n.children else childrenIn ms x
  have hrest (x : String) : ((relinkAll ms).insert m.id m)[x]? =
      (ms.insert m.id m)[x]?.map fun n => { n with children := children x n } := by
    rw [Std.ExtTreeMap.getElem?_insert, Std.ExtTreeMap.getElem?_insert, getElem?_relinkAll]
    simp only [Std.compare_eq_iff_eq, children]
    by_cases hx : m.id = x
    · subst hx
      simp
    · simp [hx]
  exact relinkAll_eq_of_children hrest

/-- Placing a new message after its parent adds it to the tree. -/
lemma place_grown (h : Grounded (grown before).messages) (hnew : m.id ∉ before.map Message.id)
    (hparent : ∀ parent, m.parent = some parent → ∃ p ∈ before, p.id = parent) :
    (grown before).place m = .ok (grown (before ++ [m])) ∧ Grounded (grown (before ++ [m])).messages := by
  have hfree : m.id ∉ (grown before).messages := by
    rw [mem_grown_iff]
    rintro ⟨p, hp, hid⟩
    exact hnew (List.mem_map.mpr ⟨p, hp, hid⟩)
  have hhung : (grown before).hung m.parent m = m := by
    rw [hung]
    cases hp : m.parent with
    | none => rw [Option.filter_none, ← hp]
    | some parent =>
      have hin : (grown before).contains parent := mem_grown_iff.mpr (hparent parent hp)
      rw [Option.filter_some, if_pos hin, ← hp]
  obtain ⟨t', hinsert⟩ := exists_insert_of_not_mem h hfree m.parent
  have hgrown : t' = grown (before ++ [m]) := by
    rw [messages_insert h.toLinked hinsert, hhung, grown, grown, IdMap.collect_concat]
    exact congrArg (Tree.mk · none) (relinkAll_insert_relinkAll _ m)
  rw [← hgrown]
  exact ⟨hinsert, grounded_insert h hinsert⟩

/-- Messages with different ids, each of which comes after its parent, are placed one after the other. -/
lemma foldlM_place {rest : List Message} (h : Grounded (grown before).messages)
    (hids : ((before ++ rest).map Message.id).Nodup) (hfirst : ParentsFirst (before ++ rest)) :
    rest.foldlM place (grown before) = .ok (grown (before ++ rest)) := by
  induction rest generalizing before with
  | nil =>
    rw [List.append_nil]
    rfl
  | cons m rest ih =>
    have hnew : m.id ∉ before.map Message.id := by
      rw [List.map_append, List.nodup_append] at hids
      exact fun hmem => hids.2.2 m.id hmem m.id List.mem_cons_self rfl
    obtain ⟨hplace, hgrounded⟩ := place_grown h hnew (hfirst before m rest rfl)
    have hsplit : before ++ m :: rest = (before ++ [m]) ++ rest := by
      rw [List.append_assoc, List.singleton_append]
    rw [List.foldlM_cons, hplace, hsplit]
    rw [hsplit] at hids hfirst
    exact ih hgrounded hids hfirst

/-! ### All messages at once -/

/-- A tree that is built from messages without circles, with nothing selected, is the grown one after its selection is
repaired. -/
lemma ofMessages_eq_repair_grown (hids : (ms.map Message.id).Nodup)
    (hacyclic : ∀ id, ¬ Circular (parentAmong ms) id) : ofMessages ms none = (grown ms).repair := by
  rw [← parentIn_collect hids] at hacyclic
  rw [ofMessages, ofIdMap, cutCycles_eq_self hacyclic, grown]

/-- Messages with different ids, without circles and without missing parents can be placed one after the other into an
empty tree in any order in which parents come first, and there is such an order; the tree that comes about does not
depend on the order, and is the one that is built from all of them once its selection is repaired. -/
theorem grows_into_ofMessages (hids : (ms.map Message.id).Nodup)
    (hparents : ∀ m ∈ ms, ∀ parent, m.parent = some parent → ∃ p ∈ ms, p.id = parent)
    (hacyclic : ∀ id, ¬ Circular (parentAmong ms) id) :
    (∃ ms', ms'.Perm ms ∧ ParentsFirst ms') ∧
      ∃ t, t.repair = ofMessages ms none ∧
        ∀ ms', ms'.Perm ms → ParentsFirst ms' → ms'.foldlM place {} = .ok t := by
  refine ⟨exists_parentsFirst hids hparents hacyclic, grown ms, (ofMessages_eq_repair_grown hids hacyclic).symm, ?_⟩
  intro ms' hperm hfirst
  have hempty : Grounded (grown []).messages := by
    rw [grown_nil]
    exact grounded_empty
  have hids' : (ms'.map Message.id).Nodup := (hperm.map Message.id).nodup_iff.mpr hids
  have hgrows : ms'.foldlM place (grown []) = .ok (grown ([] ++ ms')) := foldlM_place hempty hids' hfirst
  rwa [grown_nil, List.nil_append, grown, collect_eq_of_perm hids hperm] at hgrows

/-- Two follow-ups to an answer, the later one first, another question, the answer, and the question before it. -/
def shuffled : List Message :=
  [{ Message.ask "second follow-up" "d" 4 with parent := some "b" },
    { Message.ask "follow-up" "c" 3 with parent := some "b" }, Message.ask "other question" "e" 5,
    { Message.ask "answer" "b" 2 with parent := some "a" }, Message.ask "question" "a" 1]

/-- These messages can be placed from the last one to the first, and make the tree that is built from them. -/
theorem shuffled_grows_into_ofMessages :
    ∃ t, t.repair = ofMessages shuffled none ∧ shuffled.reverse.foldlM place {} = .ok t ∧
      (t.get? "b").map Message.children = some ["c", "d"] := by
  have hids : (shuffled.map Message.id).Nodup := by decide +kernel
  have hparents : ∀ m ∈ shuffled, ∀ parent ∈ m.parent, ∃ p ∈ shuffled, p.id = parent := by decide +kernel
  have hcycles : ∀ id ∈ (IdMap.collect Message.id shuffled).keys,
      ¬ isOnCycle (IdMap.collect Message.id shuffled) id := by decide +kernel
  have hacyclic : ∀ id, ¬ Circular (parentAmong shuffled) id := by
    rw [← parentIn_collect hids]
    intro id hcircular
    have hlink : parentIn (IdMap.collect Message.id shuffled) id ≠ none :=
      fun hnone => not_circular_of_link_eq_none hnone hcircular
    exact hcycles id (mem_keys_of_parentIn (Option.isSome_iff_ne_none.mpr hlink)) (isOnCycle_iff.mpr hcircular)
  obtain ⟨-, t, hrepair, hgrows⟩ := grows_into_ofMessages hids hparents hacyclic
  refine ⟨t, hrepair, hgrows _ (List.reverse_perm shuffled) (by decide +kernel), ?_⟩
  change (t.repair.get? "b").map Message.children = some ["c", "d"]
  rw [hrepair]
  decide +kernel

end DialogueSync.Tree
