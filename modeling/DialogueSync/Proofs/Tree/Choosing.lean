import DialogueSync.Proofs.Tree.Navigation
import DialogueSync.Proofs.Tree.Reachable

/-!
# Choosing the selected message

Of messages with different ids exactly one is the newest, so it does not matter in which order they are listed
(`newest?_eq_of_perm`). A tree that comes about has a leaf unless it is empty, and exactly one of its leaves was
touched last; this one is chosen if the preferred message is not there (`Chooses`). What is chosen if there is no leaf
never counts (`chooseFrom_eq_resolve`).
-/

namespace DialogueSync

/-! ### The newest message -/

/-- Of two messages at most one is newer than the other. -/
lemma Message.NewerThan.not_newerThan {m n : Message} (h : m.NewerThan n) : ¬ n.NewerThan m := by
  rw [← compareRecency_lt_iff] at h ⊢
  exact Std.OrientedCmp.not_lt_of_lt h

/-- The newest one of messages with different ids is the same in whatever order they are listed. -/
lemma Message.newest?_eq_of_perm {ms ms' : List Message} (hids : (ms.map Message.id).Nodup) (hperm : ms'.Perm ms) :
    newest? ms' = newest? ms := by
  cases hm : newest? ms with
  | none =>
    rw [Tree.newest?_eq_none hm] at hperm
    rw [hperm.eq_nil]
    rfl
  | some m =>
    have hmem : m ∈ ms := Tree.mem_of_newest? hm
    cases hm' : newest? ms' with
    | none =>
      rw [← hperm.mem_iff, Tree.newest?_eq_none hm'] at hmem
      cases hmem
    | some m' =>
      have hmem' : m' ∈ ms := hperm.mem_iff.mp (Tree.mem_of_newest? hm')
      by_cases hid : m'.id = m.id
      · rw [List.inj_on_of_nodup_map hids hmem' hmem hid]
      · have hnewer : m.NewerThan m' := newerThan_of_newest? hm hmem' hid
        have hnewer' : m'.NewerThan m := newerThan_of_newest? hm' (hperm.mem_iff.mpr hmem) (Ne.symm hid)
        exact absurd hnewer' hnewer.not_newerThan

namespace Tree

variable {t : Tree} {preferred : Option String} {m n : Message}

/-! ### The leaf touched last -/

/-- A tree has at most one leaf that was touched last. -/
lemma LastLeaf.eq (hm : t.LastLeaf m) (hn : t.LastLeaf n) : n = m := by
  by_cases hid : n.id = m.id
  · have hget := hn.get?_eq
    rw [hid, hm.get?_eq] at hget
    exact (Option.some.inj hget).symm
  · have hnewer : m.NewerThan n := hm.newerThan n hn.get?_eq hn.children_eq hid
    have hnewer' : n.NewerThan m := hn.newerThan m hm.get?_eq hm.children_eq (Ne.symm hid)
    exact absurd hnewer' hnewer.not_newerThan

/-- The leaves have different ids. -/
lemma nodup_leaves (h : Linked t.messages) : ((t.leaves.filterMap t.get?).map Message.id).Nodup := by
  refine List.pairwise_map.mpr (List.Pairwise.filterMap t.get? ?_ Std.ExtTreeMap.nodup_keys)
  intro x y hne m hm n hn heq
  rw [h.keyed x m hm, h.keyed y n hn] at heq
  exact hne heq

/-! ### Choosing -/

/-- The preferred message if it is in the tree, otherwise the newest one of the leaves that are listed, and otherwise
the newest one of all messages that are listed. -/
def chooseFrom (t : Tree) (preferred : Option String) (leaves all : List Message) : Option String :=
  (preferred.filter t.contains).or (((Message.newest? leaves).or (Message.newest? all)).map Message.id)

/-- In whatever order the leaves of a linked tree are listed, the choice is the same; and it is the same whatever is
listed for all messages, unless there is none. -/
lemma chooseFrom_eq_resolve (h : Linked t.messages) {leaves all : List Message}
    (hleaves : leaves.Perm (t.leaves.filterMap t.get?)) (hall : t.messages = ∅ → all = []) :
    t.chooseFrom preferred leaves all = t.resolve preferred := by
  have hnewest : Message.newest? leaves = Message.newest? (t.leaves.filterMap t.get?) :=
    Message.newest?_eq_of_perm (nodup_leaves h) hleaves
  rw [chooseFrom, resolve, hnewest]
  rcases newest?_leaves_cases h with ⟨hempty, hnone⟩ | ⟨m, -, hsome⟩
  · rw [hnone, hall hempty, hempty]
    rfl
  · rw [hsome, Option.some_or, Option.some_or]

/-- What is chosen as the selected message of a tree if one is preferred. -/
structure Chooses (t : Tree) (preferred chosen : Option String) : Prop where
  /-- The preferred message is chosen if it is in the tree. -/
  keeps : ∀ id, preferred = some id → t.contains id → chosen = some id
  /-- If it is not, nothing is chosen exactly if the tree is empty. -/
  eq_none_iff : (∀ id, preferred = some id → ¬ t.contains id) → (chosen = none ↔ t.messages = ∅)
  /-- Otherwise the one leaf is chosen that was touched last. -/
  exists_lastLeaf : (∀ id, preferred = some id → ¬ t.contains id) → t.messages ≠ ∅ →
    ∃ m, t.LastLeaf m ∧ (∀ n, t.LastLeaf n → n = m) ∧ chosen = some m.id
  /-- The leaves are the messages without children. -/
  mem_leaves_iff : ∀ id, id ∈ t.leaves ↔ ∃ m, t.get? id = some m ∧ m.children = []
  /-- A tree that is not empty has a leaf. -/
  leaves_ne_nil : t.messages ≠ ∅ → t.leaves ≠ []
  /-- It does not matter in which order the leaves and all messages are listed. -/
  chooseFrom_eq : ∀ leaves all, leaves.Perm (t.leaves.filterMap t.get?) → all.Perm t.messages.values →
    t.chooseFrom preferred leaves all = chosen
  /-- Unless the tree is empty, it does not matter what is listed for all messages. -/
  chooseFrom_eq_of_ne : t.messages ≠ ∅ → ∀ all, t.chooseFrom preferred (t.leaves.filterMap t.get?) all = chosen

/-- In a tree that comes about the preferred message is chosen if it is there, otherwise the one leaf that was touched
last, and nothing if there is no message; the choice does not depend on how the messages are listed. -/
theorem chooses_resolve (h : Reachable t) (preferred : Option String) :
    Chooses t preferred (t.resolve preferred) := by
  have hlinked := h.linked
  have hcases := resolve_cases hlinked preferred
  constructor
  case keeps =>
    intro id hid hin
    rcases hcases with ⟨x, hx, -, heq⟩ | ⟨hnot, -⟩
    · rw [heq, ← hx, hid]
    · exact absurd hin (hnot id hid)
  case eq_none_iff =>
    intro hnot
    rcases hcases with ⟨x, hx, hin, -⟩ | ⟨-, ⟨hempty, heq⟩ | ⟨m, hlast, heq⟩⟩
    · exact absurd hin (hnot x hx)
    · exact iff_of_true heq hempty
    · refine iff_of_false ?_ ?_
      · rw [heq]
        exact Option.some_ne_none m.id
      · exact Std.ExtTreeMap.ne_empty_of_mem (mem_iff_exists_getElem?.mpr ⟨m, hlast.get?_eq⟩)
  case exists_lastLeaf =>
    intro hnot hne
    rcases hcases with ⟨x, hx, hin, -⟩ | ⟨-, ⟨hempty, -⟩ | ⟨m, hlast, heq⟩⟩
    · exact absurd hin (hnot x hx)
    · exact absurd hempty hne
    · exact ⟨m, hlast, fun n hn => hlast.eq hn, heq⟩
  case mem_leaves_iff => exact fun id => mem_leaves_iff_exists hlinked
  case leaves_ne_nil =>
    intro hne
    obtain ⟨id, m, hm, hnil⟩ := exists_leaf hlinked hne
    exact List.ne_nil_of_mem ((mem_leaves_iff_exists hlinked).mpr ⟨m, hm, hnil⟩)
  case chooseFrom_eq =>
    intro leaves all hleaves hall
    refine chooseFrom_eq_resolve hlinked hleaves ?_
    intro hempty
    rw [hempty] at hall
    exact hall.eq_nil
  case chooseFrom_eq_of_ne =>
    intro hne all
    exact chooseFrom_eq_resolve hlinked (List.Perm.refl _) fun hempty => absurd hempty hne

/-- A question and three answers, of which one has been taken out, two were changed at the same time, and all were
created at the same time; and a message that waits for its parent. -/
def revised : Tree :=
  (ofMessages
    [Message.ask "question" "a" 9,
      { Message.ask "first answer" "b" 2 with parent := some "a", updatedAt := some 5 },
      { Message.ask "second answer" "c" 2 with parent := some "a", updatedAt := some 5 },
      { Message.ask "third answer" "d" 2 with parent := some "a", updatedAt := some 7 },
      { Message.ask "waiting" "e" 4 with parent := some "x" }] (some "d")).edit (.remove "d")

/-- Without the third answer the first one is chosen instead, which was changed when the second one was. -/
theorem chooses_revised : Chooses revised (some "d") (revised.resolve (some "d")) ∧
    revised.resolve (some "d") = some "b" ∧ revised.leaves = ["b", "c", "e"] ∧
    Chooses revised (some "a") (revised.resolve (some "a")) ∧ revised.resolve (some "a") = some "a" := by
  have hreachable : Reachable revised := (Reachable.ofMessages _ _).edit _
  exact ⟨chooses_resolve hreachable (some "d"), by decide +kernel, by decide +kernel,
    chooses_resolve hreachable (some "a"), by decide +kernel⟩

end Tree

end DialogueSync
