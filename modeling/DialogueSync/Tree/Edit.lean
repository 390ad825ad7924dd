import DialogueSync.Failure
import DialogueSync.Tree.Build

/-!
# Changing trees

Attaching a message, taking out a message with everything below it, and changing the body of a message in
place. The links of every other message stay as they are, apart from the lists of children of the old and
the new parent.
-/

namespace DialogueSync.Tree

/-- Derives the children of a message that may not be there. -/
def relinkOption (ms : IdMap Message) : Option String → IdMap Message
  | some id => relink ms id
  | none => ms

/-- Attaches a message under `parent`, or as a root if there is no such message. A message whose id is
already in the tree is replaced and moves with everything below it, but it cannot come to stand under
itself. -/
def insert (t : Tree) (parent : Option String) (m : Message) : Except Failure Tree :=
  let parent := parent.filter t.contains
  match parent.filter fun p => isWithin t.messages p m.id with
  | some p => .error (.wouldCycle m.id p)
  | none =>
    let previous := (parentIn t.messages m.id).filter fun p => some p != parent
    let attached := t.messages.insert m.id { m with parent := parent }
    .ok { t with messages := relinkOption (relinkOption (relink attached m.id) previous) parent }

/-- Attaches a message under the parent that it names itself. -/
def place (t : Tree) (m : Message) : Except Failure Tree :=
  t.insert m.parent m

/-- The messages found from the given ids downwards, level by level, through at most `count` levels. -/
def levels (t : Tree) : Nat → List String → List Message
  | 0, _ => []
  | count + 1, ids =>
    let found := ids.filterMap t.get?
    found ++ levels t count (found.flatMap Message.children)

/-- A message and everything below it, level by level. -/
def subtree (t : Tree) (id : String) : List Message :=
  t.levels t.size [id]

/-- Takes out a message with everything below it and repairs the selection; an id that is not in the tree
changes nothing. -/
def remove (t : Tree) (id : String) : Tree :=
  match t.get? id with
  | none => t
  | some m =>
    let rest := ((t.subtree id).map Message.id).foldl Std.ExtTreeMap.erase t.messages
    repair { t with messages := relinkOption rest m.parent }

/-- Puts the body in the place of the message with its id. -/
def setBody (t : Tree) (m : Message) : Tree :=
  { t with messages := t.messages.modify m.id fun _ => m }

end DialogueSync.Tree
