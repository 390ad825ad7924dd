import DialogueSync.Fingerprint
import DialogueSync.History

/-!
# Conversation trees

The messages of one conversation, linked by ids, and the selected message. Parent links are primary; the
list of children of a message is kept beside them and holds the messages that name it as their parent, in
sibling order. A parent that is not in the tree makes a message a root.
-/

namespace DialogueSync

/-- The messages of one conversation and the selected one. -/
structure Tree where
  /-- The messages by id. -/
  messages : IdMap Message := ∅
  /-- The id of the selected message. -/
  current : Option String := none
deriving DecidableEq, Inhabited

namespace Tree

/-! ### Looking up -/

/-- The number of messages. -/
def size (t : Tree) : Nat :=
  t.messages.size

/-- Whether there is no message. -/
def isEmpty (t : Tree) : Bool :=
  t.messages.isEmpty

/-- Whether a message with this id is in the tree. -/
def contains (t : Tree) (id : String) : Bool :=
  t.messages.contains id

/-- The message with this id. -/
def get? (t : Tree) (id : String) : Option Message :=
  t.messages[id]?

/-- The id of the parent that a message names. -/
def parentIn (ms : IdMap Message) (id : String) : Option String :=
  ms[id]?.bind Message.parent

/-- The ids met on the way up from `id`, which is the first, along at most `count` messages. The way ends
at a message that names no parent, or at an id that no message has. -/
def lineage (ms : IdMap Message) : Nat → String → List String
  | 0, _ => []
  | count + 1, id =>
    match parentIn ms id with
    | some parent => id :: lineage ms count parent
    | none => [id]

/-- Whether `id` is `ancestor` or stands below it. One id more than there are messages is looked at, since
the way up may end at an id that no message has. -/
def isWithin (ms : IdMap Message) (id ancestor : String) : Bool :=
  (lineage ms (ms.size + 1) id).contains ancestor

/-- The way up goes along no more messages than it may. -/
theorem length_lineage_le (ms : IdMap Message) (count : Nat) (id : String) :
    (lineage ms count id).length ≤ count := by
  induction count generalizing id with
  | zero => simp [lineage]
  | succ count ih =>
    unfold lineage
    split
    · simpa using ih _
    · simp

/-- The way up starts at the id itself. -/
theorem head?_lineage (ms : IdMap Message) (count : Nat) (id : String) :
    (lineage ms (count + 1) id).head? = some id := by
  unfold lineage
  split <;> rfl

/-- Every id stands within itself. -/
theorem isWithin_self (ms : IdMap Message) (id : String) : isWithin ms id id := by
  rw [isWithin, List.contains_iff_mem]
  exact List.mem_of_mem_head? (head?_lineage ms ms.size id)

/-! ### Written forms -/

/-- The messages and the selected one. -/
def toHistory (t : Tree) : History :=
  ⟨t.messages, t.current⟩

/-- What the outline of a conversation says about a message. -/
def nodeOf (m : Message) : Node where
  parent := m.parent
  children := m.children
  fingerprint := m.fingerprint
  position := m.position
  createdAt := m.createdAt

/-- The links and fingerprints of the tree. -/
def outline (t : Tree) : Outline :=
  ⟨t.messages.map fun _ m => nodeOf m, t.current⟩

/-- The outline with all bodies in the order of their ids. -/
def snapshot (t : Tree) : Snapshot :=
  ⟨t.outline, t.messages.values⟩

end Tree

end DialogueSync
