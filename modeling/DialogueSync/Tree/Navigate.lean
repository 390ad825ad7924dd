import DialogueSync.Tree.Links

/-!
# Finding one's way in a tree

The way down to a message, the messages at the two ends of the tree, siblings, and the choice of the
selected message: it is kept if it is still there, and otherwise falls to the leaf that was touched last.
-/

namespace DialogueSync

/-- Orders messages by the time of the last change, then by creation, then by descending id. -/
def Message.compareRecency : Message → Message → Ordering :=
  compareLex (compareOn Message.lastTouched)
    (compareLex (compareOn Message.createdAt) fun a b => compare b.id a.id)

/-- The message of a list that is greatest in the order of recency. -/
def Message.newest? : List Message → Option Message
  | [] => none
  | m :: rest =>
    match newest? rest with
    | some best => if (m.compareRecency best).isGT then some m else some best
    | none => some m

namespace Tree

/-! ### Ways through the tree -/

/-- The messages from the root down to `id`; none if `id` is not in the tree. -/
def path (t : Tree) (id : String) : List Message :=
  ((lineage t.messages t.size id).filterMap t.get?).reverse

/-- Whether no child of the message is in the tree. -/
def isLeaf (t : Tree) (m : Message) : Bool :=
  m.children.all fun c => !t.contains c

/-- Whether the parent of the message is not in the tree. -/
def isRoot (t : Tree) (m : Message) : Bool :=
  m.parent.all fun p => !t.contains p

/-- The ids of the messages without children, in their order. -/
def leaves (t : Tree) : List String :=
  (t.messages.filter fun _ m => t.isLeaf m).keys

/-- The ids of the messages without a parent in the tree, in sibling order. -/
def roots (t : Tree) : List String :=
  Rank.sortIds (rankIn t.messages) (t.messages.filter fun _ m => t.isRoot m).keys

/-- The ids of a message and of the others under its parent, in sibling order; roots are siblings of each
other. -/
def siblings (t : Tree) (id : String) : List String :=
  match t.get? id with
  | none => []
  | some m =>
    match m.parent.bind t.get? with
    | some parent => parent.children
    | none => t.roots

/-! ### The selected message -/

/-- The preferred message if it is in the tree, otherwise the leaf touched last, and nothing only if the
tree is empty. -/
def resolve (t : Tree) (preferred : Option String) : Option String :=
  let newestLeaf := Message.newest? (t.leaves.filterMap t.get?)
  (preferred.filter t.contains).or
    ((newestLeaf.or (Message.newest? t.messages.values)).map Message.id)

/-- Keeps the selected message if it is in the tree and chooses another one otherwise. -/
def repair (t : Tree) : Tree :=
  { t with current := t.resolve t.current }

/-- The id reached from `id` by going to the last child at most `count` times. -/
def descend (t : Tree) : Nat → String → String
  | 0, id => id
  | count + 1, id =>
    match ((t.get? id).bind fun m => m.children.getLast?).filter t.contains with
    | some child => descend t count child
    | none => id

/-- Selects the branch through `id`, down to the leaf that the last children lead to. An id that is not in
the tree leaves the selection to `repair`. -/
def select (t : Tree) (id : String) : Tree :=
  if t.contains id then { t with current := some (t.descend t.size id) } else t.repair

/-- Repairing the selection leaves the messages as they are. -/
@[simp] theorem messages_repair (t : Tree) : t.repair.messages = t.messages :=
  rfl

/-- Selecting a branch leaves the messages as they are. -/
@[simp] theorem messages_select (t : Tree) (id : String) : (t.select id).messages = t.messages := by
  unfold select
  split <;> rfl

end Tree

end DialogueSync
