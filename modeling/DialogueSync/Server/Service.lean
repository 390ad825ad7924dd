import DialogueSync.Server.Store
import DialogueSync.Server.Validation

/-!
# What the server does

Listing conversations, answering for outlines, bodies and whole conversations, and saving histories. A
conversation is named after the first thing the user said in it.
-/

namespace DialogueSync.Server

/-! ### Titles -/

/-- How many characters a title has at most, before the mark that it was cut. -/
def titleLength : Nat := 60

/-- Orders messages by creation, then by id. -/
def compareCreation : Message → Message → Ordering :=
  compareLex (compareOn Message.createdAt) (compareOn Message.id)

/-- The message of a list that comes first in the order of creation. -/
def earliest? : List Message → Option Message
  | [] => none
  | m :: rest =>
    match earliest? rest with
    | some best => if (compareCreation best m).isLT then some best else some m
    | none => some m

/-- A text cut to the length of a title. -/
def shorten (s : String) : String :=
  if titleLength < s.length then String.ofList (s.toList.take titleLength ++ ['…']) else s

/-- The title of a conversation: what the user said first, if anything. -/
def titleOf (h : History) : String :=
  let spoken := h.messages.values.filter fun m => m.role = .user && !Text.isBlank m.content
  match earliest? spoken with
  | some m => shorten (Text.trim m.content)
  | none => "New chat"

namespace Database

/-! ### Answers -/

/-- The tree of a stored conversation. -/
def tree (db : Database) (conversation : String) : Except Failure Tree := do
  let _ ← db.conversation conversation
  let messages ← db.messages conversation
  let current ← db.current conversation
  return Tree.ofMessages messages current

/-- The outline of a stored conversation. -/
def outline (db : Database) (conversation : String) : Except Failure Outline := do
  return (← db.tree conversation).outline

/-- A whole stored conversation. -/
def snapshot (db : Database) (conversation : String) : Except Failure Snapshot := do
  return (← db.tree conversation).snapshot

/-- Bodies of a stored conversation. -/
def bodies (db : Database) (conversation : String) (ids : List String) :
    Except Failure (List Message) := do
  let _ ← db.conversation conversation
  if ids.isEmpty then return [] else db.messagesWith conversation ids

/-! ### Saving -/

/-- Saves a conversation at `now`, which is created if it is not there. Whatever fails, the database
stays as it was. -/
def save (db : Database) (conversation : String) (request : SaveRequest) (now : Int64) :
    Except Failure Database := do
  if Text.isBlank conversation then throw (.blankField "conversation_id")
  validate request.history
  let stored ← db.conversation? conversation
  let c := stored.getD ⟨conversation, titleOf request.history, now, now⟩
  db.replaceHistory c request now

end Database

end DialogueSync.Server
