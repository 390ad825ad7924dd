import DialogueSync.Failure
import DialogueSync.Text.Blank
import DialogueSync.Tree.Build

/-!
# Checking histories

A history is accepted if every message has an id that is not blank and stands under that id, if the
selected message is one of them, and if no message stands above itself. A parent outside the history is
allowed.
-/

namespace DialogueSync.Server

/-- What can be wrong with a history. -/
inductive HistoryFault where
  /-- A message has a blank id. -/
  | blankId
  /-- A message stands under another id than its own. -/
  | misplaced (key id : String)
  /-- The selected message is not in the history. -/
  | danglingCurrent (id : String)
  /-- A message stands above itself. -/
  | cycle (id : String)
deriving DecidableEq, Repr

/-- The failure that a fault is reported as. -/
def HistoryFault.failure : HistoryFault → Failure
  | blankId => .blankField "message.id"
  | misplaced key id => .faultyHistory s!"key '{key}' does not match message id '{id}'"
  | danglingCurrent id => .faultyHistory s!"current message '{id}' is not in the history"
  | cycle id => .faultyHistory s!"parent links of '{id}' form a cycle"

/-- What is wrong with a message under its key. -/
def messageFault (key : String) (m : Message) : Option HistoryFault :=
  if Text.isBlank m.id then some .blankId
  else if key ≠ m.id then some (.misplaced key m.id)
  else none

/-- What is wrong with the selected message. -/
def currentFault (h : History) : Option HistoryFault :=
  match h.current with
  | some id => if h.messages.contains id then none else some (.danglingCurrent id)
  | none => none

/-- The message whose parent link the tree of the history had to cut. -/
def cycleFault (h : History) : Option HistoryFault :=
  let tree := Tree.ofHistory h
  (h.messages.values.find? fun m => (tree.get? m.id).bind Message.parent ≠ m.parent).map
    fun m => .cycle m.id

/-- The first fault of a history: of its messages, then of the selected one, then of the links. -/
def fault? (h : History) : Option HistoryFault :=
  ((h.messages.toList.findSome? fun e => messageFault e.1 e.2).or (currentFault h)).or (cycleFault h)

/-- Accepts a history or refuses it with its first fault. -/
def validate (h : History) : Except Failure Unit :=
  match fault? h with
  | some fault => .error fault.failure
  | none => .ok ()

end DialogueSync.Server
