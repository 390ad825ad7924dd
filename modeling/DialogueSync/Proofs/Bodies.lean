import DialogueSync.Proofs.IdMap
import DialogueSync.Tree.Basic

/-!
# Bodies and links

A message is a body and its links: parent, children and position. Two messages with the `SameBody` differ at
most in the links, and linking a message to an outline changes nothing else (`sameBody_link`). So the
messages of a tree are recovered from their bodies by linking these to the outline of the tree
(`Tree.link_outline_eq`).
-/

namespace DialogueSync

namespace Message

/-- The messages differ at most in parent, children and position. -/
def SameBody (m n : Message) : Prop :=
  { m with parent := n.parent, children := n.children, position := n.position } = n

instance (m n : Message) : Decidable (SameBody m n) :=
  inferInstanceAs (Decidable (_ = _))

lemma SameBody.refl (m : Message) : SameBody m m :=
  rfl

lemma SameBody.trans {m n k : Message} (h : SameBody m n) (h' : SameBody n k) : SameBody m k := by
  unfold SameBody at h h' ⊢
  rw [← h', ← h]

lemma SameBody.symm {m n : Message} (h : SameBody m n) : SameBody n m := by
  unfold SameBody at h ⊢
  rw [← h]

lemma SameBody.id_eq {m n : Message} (h : SameBody m n) : m.id = n.id := by
  unfold SameBody at h
  rw [← h]

lemma SameBody.content_eq {m n : Message} (h : SameBody m n) : m.content = n.content := by
  unfold SameBody at h
  rw [← h]

lemma SameBody.done_eq {m n : Message} (h : SameBody m n) : m.done = n.done := by
  unfold SameBody at h
  rw [← h]

lemma SameBody.createdAt_eq {m n : Message} (h : SameBody m n) : m.createdAt = n.createdAt := by
  unfold SameBody at h
  rw [← h]

/-- The fingerprint leaves out the place in the tree and the position. -/
lemma SameBody.fingerprint_eq {m n : Message} (h : SameBody m n) : m.fingerprint = n.fingerprint := by
  unfold SameBody at h
  rw [← h]
  rfl

end Message

namespace Outline

open Message (SameBody)

variable {o : Outline}

/-- The parent that the outline gives for an id. -/
def parentOf (o : Outline) (id : String) : Option String :=
  o.nodes[id]?.bind Node.parent

/-- A message that the outline knows takes its links from there. -/
lemma link_eq {m : Message} {n : Node} (h : o.nodes[m.id]? = some n) :
    o.link m = { m with parent := n.parent, children := n.children, position := n.position } := by
  rw [link, h]

/-- Linking a message leaves its body as it is. -/
lemma sameBody_link (o : Outline) (m : Message) : SameBody m (o.link m) := by
  unfold link
  split <;> rfl

end Outline

namespace Tree

open Message (SameBody)

variable {t : Tree} {id : String}

/-- The ids of a tree are those under which it finds a message. -/
lemma mem_iff_exists_get? : id ∈ t.messages ↔ ∃ m, t.get? id = some m :=
  mem_iff_exists_getElem?

lemma contains_iff_exists_get? : t.contains id ↔ ∃ m, t.get? id = some m :=
  mem_iff_exists_getElem?

/-- The parent of an id is that of the message under it. -/
lemma parentIn_of_get? {m : Message} (h : t.get? id = some m) : parentIn t.messages id = m.parent := by
  rw [parentIn, show t.messages[id]? = some m from h, Option.bind_some]

/-- The outline of a tree has the links and the fingerprints of its messages. -/
lemma getElem?_outline (t : Tree) (id : String) :
    t.outline.nodes[id]? = (t.get? id).map nodeOf :=
  Std.ExtTreeMap.getElem?_map

/-- The outline of a tree is about its messages, and no others. -/
lemma mem_outline_iff : id ∈ t.outline.nodes ↔ t.contains id :=
  Std.ExtTreeMap.mem_map

/-- The outline of a tree gives the parents that the tree has. -/
lemma parentOf_outline (t : Tree) : t.outline.parentOf = parentIn t.messages := by
  funext id
  rw [Outline.parentOf, getElem?_outline, parentIn, get?]
  cases t.messages[id]? <;> rfl

lemma size_outline (t : Tree) : t.outline.size = t.size :=
  Std.ExtTreeMap.size_map

/-- A message with the body that the tree has for its id becomes that of the tree when it is linked. -/
lemma link_outline_eq {m m' : Message} (hm' : t.get? m.id = some m') (h : SameBody m m') :
    t.outline.link m = m' := by
  have hn : t.outline.nodes[m.id]? = some (nodeOf m') := by rw [getElem?_outline, hm', Option.map_some]
  rw [Outline.link_eq hn]
  exact h

end Tree

end DialogueSync
