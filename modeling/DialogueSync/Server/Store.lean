import DialogueSync.Server.Rows

/-!
# Queries and changes

The statements of the server with their effect on the tables: looking up conversations and messages, and
the three steps in which a saved history takes the place of the stored one.
-/

namespace DialogueSync.Server

/-! ### Changing tables -/

namespace Tables

/-- Stores a conversation. One that exists keeps its title and its time of creation. -/
def saveConversation (t : Tables) (c : Summary) (request : SaveRequest) (now : Int64) : Tables :=
  let stored := t.conversations[c.id]?
  let row : ConversationRow := {
    title := (stored.map ConversationRow.title).getD (some c.title)
    models := some (encode request.models)
    params := some request.params
    files := some (encode request.files)
    currentId := request.history.current
    createdAt := (stored.map ConversationRow.createdAt).getD (some c.createdAt)
    updatedAt := some now }
  { t with conversations := t.conversations.insert c.id row }

/-- Deletes the messages of a conversation that are not to be kept. -/
def pruneMessages (t : Tables) (conversation : String) (keep : IdMap Message) : Tables :=
  { t with messages := t.messages.filter fun k _ =>
      k.conversation ≠ conversation || keep.contains k.id }

/-- Stores a message. -/
def saveMessage (t : Tables) (conversation : String) (m : Message) : Tables :=
  { t with messages := t.messages.insert ⟨conversation, m.id⟩ (rowOf m) }

/-- The rows of the messages of a conversation, by id. -/
def messagesOf (t : Tables) (conversation : String) : List (String × MessageRow) :=
  (t.messages.filter fun k _ => k.conversation = conversation).toList.map fun e => (e.1.id, e.2)

end Tables

/-! ### Queries -/

namespace Database

/-- Orders summaries from the conversation saved last, equal times by id. -/
def compareSummaries : Summary → Summary → Ordering :=
  compareLex (fun a b => compare b.updatedAt a.updatedAt) (compareOn Summary.id)

/-- Puts a summary in its place among summaries that are in order. -/
def placeSummary (c : Summary) : List Summary → List Summary
  | [] => [c]
  | d :: rest => if (compareSummaries c d).isGT then d :: placeSummary c rest else c :: d :: rest

/-- The conversations, the one saved last first. -/
def conversations (db : Database) : Except Failure (List Summary) :=
  match db.tables.conversations.toList.mapM fun e => e.2.summary? e.1 with
  | some summaries => db.run .listConversations (summaries.foldr placeSummary [])
  | none => .error (.query Statement.listConversations.complaint)

/-- The conversation with this id, if there is one. -/
def conversation? (db : Database) (id : String) : Except Failure (Option Summary) :=
  match db.tables.conversations[id]? with
  | none => db.run (.findConversation id) none
  | some row =>
    match row.summary? id with
    | some c => db.run (.findConversation id) (some c)
    | none => .error (.query (Statement.findConversation id).complaint)

/-- The conversation with this id, which must exist. -/
def conversation (db : Database) (id : String) : Except Failure Summary := do
  match ← db.conversation? id with
  | some c => return c
  | none => throw (.unknownConversation id)

/-- The selected message of a conversation. -/
def current (db : Database) (conversation : String) : Except Failure (Option String) :=
  db.run (.findCurrent conversation)
    (db.tables.conversations[conversation]?.bind ConversationRow.currentId)

/-- Reads messages from rows. -/
def readMessages (rows : List (String × MessageRow)) : Except Failure (List Message) :=
  rows.mapM fun e => e.2.message e.1

/-- The messages of a conversation. -/
def messages (db : Database) (conversation : String) : Except Failure (List Message) := do
  let rows ← db.run (.findMessages conversation) (db.tables.messagesOf conversation)
  readMessages rows

/-- The messages of a conversation whose ids are asked for, each once and in the order of their ids. -/
def messagesWith (db : Database) (conversation : String) (ids : List String) :
    Except Failure (List Message) := do
  let rows ← db.run .findBodies
    ((db.tables.messagesOf conversation).filter fun e => ids.contains e.1)
  readMessages rows

/-! ### Saving -/

/-- Stores messages one after the other in a transaction. -/
def saveMessages (db : Database) (conversation : String) (tables : Tables) :
    List Message → Except Failure Tables
  | [] => .ok tables
  | m :: rest => do
    let tables ← db.run (.saveMessage m.id) (tables.saveMessage conversation m)
    saveMessages db conversation tables rest

/-- Puts a history in the place of the stored one in one transaction. -/
def replaceHistory (db : Database) (c : Summary) (request : SaveRequest) (now : Int64) :
    Except Failure Database := do
  let opened ← db.run .begin db.tables
  let saved ← db.run .saveConversation (opened.saveConversation c request now)
  let pruned ← db.run .pruneMessages (saved.pruneMessages c.id request.history.messages)
  let filled ← db.saveMessages c.id pruned request.history.messages.values
  let committed ← db.run .commit filled
  return { db with tables := committed }

end Database

end DialogueSync.Server
