import DialogueSync.Cache.Memory
import DialogueSync.Codec.History
import DialogueSync.Failure

/-!
# The database of the server

Two tables, one of conversations and one of messages, and the statements that the server runs on them. A
statement may fail; then its answer is the failure. A transaction is a table state on the side that takes
the place of the stored one when it is committed, so one that is not committed leaves no trace.
-/

namespace DialogueSync.Server

/-! ### Tables -/

/-- A row of the table of conversations, under its id; a column without a value is absent. -/
structure ConversationRow where
  /-- The title. -/
  title : Option String := none
  /-- The models in use. -/
  models : Option Json := none
  /-- Free settings. -/
  params : Option Json := none
  /-- Free descriptions of attached files. -/
  files : Option Json := none
  /-- The selected message. -/
  currentId : Option String := none
  /-- When the conversation was created, in milliseconds since the epoch. -/
  createdAt : Option Int64 := none
  /-- When the conversation was last saved. -/
  updatedAt : Option Int64 := none

/-- A row of the table of messages, under its conversation and id; a column without a value is absent. -/
structure MessageRow where
  /-- The parent. -/
  parentId : Option String := none
  /-- The written name of the speaker. -/
  role : Option String := none
  /-- What is said. -/
  content : Option String := none
  /-- The model that wrote a response. -/
  modelId : Option String := none
  /-- The place among the siblings. -/
  position : Option Int64 := none
  /-- When the message was created. -/
  createdAt : Option Int64 := none
  /-- When the message was last changed. -/
  updatedAt : Option Int64 := none
  /-- The metering of a response. -/
  usage : Option Json := none
  /-- Whether the content is complete. -/
  done : Option Bool := none
  /-- What went wrong while the response was written. -/
  error : Option String := none

/-- What a row of the table of messages is stored under. -/
abbrev MessageKey := Cache.Key

/-- The two tables. -/
structure Tables where
  /-- The conversations by id. -/
  conversations : IdMap ConversationRow := ∅
  /-- The messages by conversation and id. -/
  messages : Std.ExtTreeMap MessageKey MessageRow := ∅

/-! ### Statements -/

/-- The statements that the server runs. -/
inductive Statement where
  /-- Lists the conversations. -/
  | listConversations
  /-- Looks up a conversation. -/
  | findConversation (conversation : String)
  /-- Looks up the selected message of a conversation. -/
  | findCurrent (conversation : String)
  /-- Looks up the messages of a conversation. -/
  | findMessages (conversation : String)
  /-- Looks up some messages of a conversation. -/
  | findBodies
  /-- Opens a transaction. -/
  | begin
  /-- Stores a conversation. -/
  | saveConversation
  /-- Deletes the messages that a conversation no longer has. -/
  | pruneMessages
  /-- Stores a message. -/
  | saveMessage (id : String)
  /-- Commits a transaction. -/
  | commit
deriving DecidableEq, Repr

/-- What is said when a statement fails. -/
def Statement.complaint : Statement → String
  | listConversations => "Failed to fetch conversations"
  | findConversation conversation => "Failed to find conversation " ++ conversation
  | findCurrent conversation => "Failed to read conversation " ++ conversation
  | findMessages conversation => "Failed to fetch messages for conversation " ++ conversation
  | findBodies => "Failed to fetch message bodies"
  | begin => "Failed to open transaction"
  | saveConversation => "Failed to save conversation"
  | pruneMessages => "Failed to prune messages"
  | saveMessage _ => "Failed to save message"
  | commit => "Failed to commit history"

/-- A database: its tables, and which statements fail. -/
structure Database where
  /-- The tables. -/
  tables : Tables := {}
  /-- Whether a statement fails. -/
  fails : Statement → Bool := fun _ => false

namespace Database

/-- The database that cannot be reached: every statement fails. -/
def unreachable (tables : Tables) : Database where
  tables := tables
  fails := fun _ => true

/-- The answer of a statement, unless it fails. -/
def run {α : Type} (db : Database) (s : Statement) (answer : α) : Except Failure α :=
  if db.fails s then .error (.query s.complaint) else .ok answer

end Database

end DialogueSync.Server
