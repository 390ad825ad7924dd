import DialogueSync.Server.Database
import DialogueSync.Tree.Basic

/-!
# Rows and what they describe

Reading messages and conversations from rows, where columns that must have a value may lack one, and
writing them as rows. The columns of a message are read in a fixed order, and the first that cannot be
read is the one complained about.
-/

namespace DialogueSync.Server

/-- What the list of conversations says about one of them. -/
structure Summary where
  /-- The id. -/
  id : String
  /-- The title. -/
  title : String
  /-- When the conversation was created. -/
  createdAt : Int64
  /-- When the conversation was last saved. -/
  updatedAt : Int64
deriving DecidableEq, Repr

/-- The summary that a row gives, unless a column lacks its value. -/
def ConversationRow.summary? (id : String) (r : ConversationRow) : Option Summary := do
  return ⟨id, ← r.title, ← r.createdAt, ← r.updatedAt⟩

/-- The failure to read a column. -/
def unreadable (column : String) : Failure :=
  .query ("Failed to read " ++ column)

/-- The value of a column that must have one. -/
def needed {α : Type} (column : String) (value : Option α) : Except Failure α :=
  match value with
  | some x => .ok x
  | none => .error (unreadable column)

/-- Reads the speaker, whose name may be written in any case. -/
def readRole (value : Option String) : Except Failure Role := do
  let name ← needed "role" value
  match Role.read name with
  | .ok r => return r
  | .error text => throw (.unexpected ("Unknown message role: " ++ text))

/-- Reads the metering, if there is any. -/
def readUsage (value : Option Json) : Except Failure (Option Usage) :=
  match value with
  | none => .ok none
  | some j =>
    match (decode j : Option Usage) with
    | some u => .ok (some u)
    | none => .error (unreadable "usage")

/-- The message that a row describes; its children are left to the tree. -/
def MessageRow.message (id : String) (r : MessageRow) : Except Failure Message := do
  let role ← readRole r.role
  let usage ← readUsage r.usage
  let content ← needed "content" r.content
  let createdAt ← needed "created_at" r.createdAt
  let done ← needed "done" r.done
  return {
    id := id
    parent := r.parentId
    role := role
    content := content
    model := r.modelId
    position := r.position
    createdAt := createdAt
    updatedAt := r.updatedAt
    usage := usage
    done := done
    error := r.error }

/-- The row of a message. -/
def rowOf (m : Message) : MessageRow where
  parentId := m.parent
  role := some m.role.name
  content := some m.content
  modelId := m.model
  position := m.position
  createdAt := some m.createdAt
  updatedAt := m.updatedAt
  usage := m.usage.map encode
  done := some m.done
  error := m.error

end DialogueSync.Server
