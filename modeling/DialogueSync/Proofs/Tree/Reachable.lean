import DialogueSync.Proofs.Tree.Changes

/-!
# Trees that can come about

A tree is built empty or from messages, whatever these are, and changed by edits, any of which may be
refused. Every tree that comes about in this way is `Consistent` (`consistent_of_reachable`): its messages
are stored under their own ids, no way up comes back to where it started, a message has for children exactly
those that name it as their parent, in sibling order, and the selected message is there. Building a tree and
most edits also settle the selection, so that nothing is selected only if there is no message.
-/

namespace DialogueSync.Tree

/-! ### Edits -/

/-- Something that is done to a tree. -/
inductive Edit where
  /-- Attaches a message under a parent. -/
  | insert (parent : Option String) (m : Message)
  /-- Attaches a message under the parent that it names. -/
  | place (m : Message)
  /-- Takes out a message with everything below it. -/
  | remove (id : String)
  /-- Selects the branch through a message. -/
  | select (id : String)
  /-- Chooses the selected message anew if it is not there. -/
  | repair

/-- The tree after an edit; one that is refused leaves it as it is. -/
def edit (t : Tree) : Edit → Tree
  | .insert parent m => (t.insert parent m).toOption.getD t
  | .place m => (t.place m).toOption.getD t
  | .remove id => t.remove id
  | .select id => t.select id
  | .repair => t.repair

/-- The edit looks after the selection. -/
def Edit.Settles (t : Tree) : Edit → Prop
  | .insert .. | .place _ => False
  | .remove id => t.contains id
  | .select _ | .repair => True

/-- The tree comes about by building and by edits. -/
inductive Reachable : Tree → Prop where
  /-- The tree is empty. -/
  | empty : Reachable {}
  /-- The tree is built from loose messages. -/
  | ofMessages (ms : List Message) (current : Option String) : Reachable (ofMessages ms current)
  /-- The tree is built from a written history. -/
  | ofHistory (h : History) : Reachable (ofHistory h)
  /-- The tree is edited. -/
  | edit {t : Tree} (h : Reachable t) (e : Edit) : Reachable (t.edit e)

/-- The tree comes about in such a way that its selection was settled last. -/
inductive Settled : Tree → Prop where
  /-- The tree was built from loose messages. -/
  | ofMessages (ms : List Message) (current : Option String) : Settled (ofMessages ms current)
  /-- The tree was built from a written history. -/
  | ofHistory (h : History) : Settled (ofHistory h)
  /-- The last edit settles the selection. -/
  | edit {t : Tree} (h : Reachable t) {e : Edit} (he : e.Settles t) : Settled (t.edit e)

/-- One message stands before another in sibling order. -/
def Before (t : Tree) (a b : String) : Prop :=
  ∃ m n, t.get? a = some m ∧ t.get? b = some n ∧ compare m.rank n.rank = .lt

/-- What holds of a tree at any time. -/
structure Consistent (t : Tree) : Prop where
  /-- Every message is stored under its own id. -/
  keyed : ∀ id m, t.get? id = some m → m.id = id
  /-- No way up along parent links comes back to where it started. -/
  acyclic : ∀ id, ¬ Circular (parentIn t.messages) id
  /-- The children of a message are exactly the messages that name it as their parent. -/
  mem_children_iff : ∀ id m, t.get? id = some m →
    ∀ child, child ∈ m.children ↔ ∃ c, t.get? child = some c ∧ c.parent = some id
  /-- No message is twice a child. -/
  nodup_children : ∀ id m, t.get? id = some m → m.children.Nodup
  /-- The children stand in strictly increasing sibling order. -/
  pairwise_children : ∀ id m, t.get? id = some m → m.children.Pairwise t.Before
  /-- What is selected is there. -/
  contains_of_current : ∀ id, t.current = some id → t.contains id

variable {t : Tree}

/-! ### One edit -/

/-- An edit of a linked tree leaves it linked. -/
lemma linked_edit (h : Linked t.messages) (e : Edit) : Linked (t.edit e).messages := by
  have hinsert : ∀ parent m, Linked ((t.insert parent m).toOption.getD t).messages := by
    intro parent m
    cases ht' : t.insert parent m with
    | error => exact h
    | ok t' => exact linked_insert h ht'
  cases e with
  | insert parent m => exact hinsert parent m
  | place m => exact hinsert m.parent m
  | remove id => exact linked_remove h id
  | select id => exact (wellFormed_select h id).toLinked
  | repair => exact h

/-- Attaching a message takes none away. -/
lemma mem_of_insert (h : Linked t.messages) {parent : Option String} {m : Message} {t' : Tree}
    (hinsert : t.insert parent m = .ok t') {id : String} (hid : id ∈ t.messages) :
    id ∈ t'.messages := by
  rw [messages_insert h hinsert]
  change id ∈ relinkAll (t.messages.insert m.id (t.hung parent m))
  rw [relinkAll, Std.ExtTreeMap.mem_map, Std.ExtTreeMap.mem_insert]
  exact Or.inr hid

/-- An edit leaves something selected that is there. -/
lemma mem_of_current_edit (h : Linked t.messages)
    (hcurrent : ∀ id, t.current = some id → id ∈ t.messages) (e : Edit) :
    ∀ id, (t.edit e).current = some id → id ∈ (t.edit e).messages := by
  have hinsert : ∀ parent m id, ((t.insert parent m).toOption.getD t).current = some id →
      id ∈ ((t.insert parent m).toOption.getD t).messages := by
    intro parent m id hid
    cases ht' : t.insert parent m with
    | error =>
      rw [ht'] at hid
      exact hcurrent id hid
    | ok t' =>
      rw [ht'] at hid
      refine mem_of_insert h ht' (hcurrent id ?_)
      rw [← hid, messages_insert h ht']
      rfl
  cases e with
  | insert parent m => exact hinsert parent m
  | place m => exact hinsert m.parent m
  | remove id =>
    intro x hx
    change (t.remove id).current = some x at hx
    change x ∈ (t.remove id).messages
    by_cases hid : id ∈ t.messages
    · rw [remove_of_mem h hid] at hx ⊢
      exact (wellFormed_repair (linked_without h id)).mem_of_current x hx
    · rw [remove_of_not_mem hid] at hx ⊢
      exact hcurrent x hx
  | select id => exact (wellFormed_select h id).mem_of_current
  | repair => exact (wellFormed_repair h).mem_of_current

/-- An edit that looks after the selection leaves a linked tree well-formed. -/
lemma wellFormed_edit (h : Linked t.messages) {e : Edit} (he : e.Settles t) :
    (t.edit e).WellFormed := by
  cases e with
  | insert parent m => exact he.elim
  | place m => exact he.elim
  | remove id =>
    change (t.remove id).WellFormed
    rw [remove_of_mem h he]
    exact wellFormed_repair (linked_without h id)
  | select id => exact wellFormed_select h id
  | repair => exact wellFormed_repair h

/-! ### Sequences of edits -/

/-- A tree that comes about is linked. -/
lemma Reachable.linked (h : Reachable t) : Linked t.messages := by
  induction h with
  | empty =>
    have hempty := (wellFormed_ofMessages [] none).toLinked
    rwa [show (Tree.ofMessages [] none).messages = ∅ by decide] at hempty
  | ofMessages ms current => exact (wellFormed_ofMessages ms current).toLinked
  | ofHistory h => exact (wellFormed_ofHistory h).toLinked
  | edit _ e ih => exact linked_edit ih e

/-- In a tree that comes about the selected message is there. -/
lemma Reachable.mem_of_current (h : Reachable t) :
    ∀ id, t.current = some id → id ∈ t.messages := by
  induction h with
  | empty =>
    intro id hid
    cases hid
  | ofMessages ms current => exact (wellFormed_ofMessages ms current).mem_of_current
  | ofHistory h => exact (wellFormed_ofHistory h).mem_of_current
  | edit h e ih => exact mem_of_current_edit h.linked ih e

/-- A settled tree is well-formed. -/
lemma Settled.wellFormed (h : Settled t) : t.WellFormed := by
  cases h with
  | ofMessages ms current => exact wellFormed_ofMessages ms current
  | ofHistory h => exact wellFormed_ofHistory h
  | edit h he => exact wellFormed_edit h.linked he

/-- In a linked tree the children of a message are those that name it as their parent. -/
lemma Linked.mem_children_iff (h : Linked t.messages) {id : String} {m : Message}
    (hm : t.get? id = some m) {child : String} :
    child ∈ m.children ↔ ∃ c, t.get? child = some c ∧ c.parent = some id := by
  rw [h.children_eq id m hm, mem_childrenIn_iff h.keyed, parentIn, Option.bind_eq_some_iff]
  rfl

/-- The derived children of an id stand in the sibling order of the tree. -/
lemma pairwise_before_childrenIn (h : IdMap.Keyed Message.id t.messages) (id : String) :
    (childrenIn t.messages id).Pairwise t.Before := by
  refine (pairwise_childrenIn h id).imp fun {a b} hab => ?_
  obtain ⟨r, r', hr, hr', hlt⟩ := hab
  obtain ⟨ma, hma, rfl⟩ := Option.map_eq_some_iff.mp hr
  obtain ⟨mb, hmb, rfl⟩ := Option.map_eq_some_iff.mp hr'
  exact ⟨ma, mb, hma, hmb, hlt⟩

/-- In a linked tree the children of a message stand in sibling order. -/
lemma Linked.pairwise_children (h : Linked t.messages) {id : String} {m : Message}
    (hm : t.get? id = some m) : m.children.Pairwise t.Before := by
  rw [h.children_eq id m hm]
  exact pairwise_before_childrenIn h.keyed id

/-- No message stands before itself. -/
lemma not_before_self (t : Tree) (id : String) : ¬ t.Before id id := by
  rintro ⟨m, n, hm, hn, hlt⟩
  rw [hm] at hn
  obtain rfl := Option.some.inj hn
  rw [Std.compare_eq_iff_eq.mpr rfl] at hlt
  cases hlt

/-- Every tree that comes about by building one from any messages and by any edits, refused or not, is
consistent; and if its selection was settled last, nothing is selected only if there is no message. -/
theorem consistent_of_reachable (h : Reachable t) :
    t.Consistent ∧ (Settled t → t.current = none → t.messages = ∅) := by
  have hlinked := h.linked
  refine ⟨⟨hlinked.keyed, hlinked.acyclic, fun id m hm child => hlinked.mem_children_iff hm,
    fun id m hm => ?_, fun id m hm => hlinked.pairwise_children hm, h.mem_of_current⟩,
    fun hsettled => hsettled.wellFormed.eq_empty_of_current⟩
  refine (hlinked.pairwise_children hm).imp fun {a b} hab heq => ?_
  subst heq
  exact not_before_self t a hab

/-- Two messages that name each other as parents and one that waits for its parent. -/
def circleAndWaiting : Tree :=
  ofMessages
    [{ Message.ask "first" "a" 1 with parent := some "b" },
      { Message.ask "second" "b" 2 with parent := some "a" },
      { Message.ask "waiting" "d" 3 with parent := some "c" }] (some "x")

/-- The tree after the awaited parent has come, and the first message is moved below it together with the
second. -/
def rearranged : Tree :=
  (circleAndWaiting.edit (.insert none (Message.ask "awaited" "c" 4))).edit
    (.place { Message.ask "first" "a" 1 with parent := some "c" })

/-- After the second message is taken out the tree is consistent, and something is selected in it. -/
theorem consistent_rearranged :
    Reachable (rearranged.edit (.remove "b")) ∧ (rearranged.edit (.remove "b")).Consistent ∧
      ((rearranged.edit (.remove "b")).current = none →
        (rearranged.edit (.remove "b")).messages = ∅) := by
  have hcircle : Reachable circleAndWaiting := Reachable.ofMessages _ _
  have hrearranged : Reachable rearranged := (hcircle.edit _).edit _
  have hsettled : Settled (rearranged.edit (.remove "b")) :=
    Settled.edit hrearranged (show rearranged.contains "b" by decide +kernel)
  have h := hrearranged.edit (.remove "b")
  exact ⟨h, (consistent_of_reachable h).1, (consistent_of_reachable h).2 hsettled⟩

/-- The message that waited and the one that was moved are now the children of the one that has come. -/
example : (rearranged.get? "c").map Message.children = some ["a", "d"] := by decide +kernel

end DialogueSync.Tree
