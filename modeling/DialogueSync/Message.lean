import DialogueSync.Rank
import DialogueSync.Role
import DialogueSync.Usage

/-!
# Messages

One node of a conversation. Parent and children are named by their ids; the tree that holds the message
keeps the children in sibling order.
-/

namespace DialogueSync

/-- One message of a conversation. -/
structure Message where
  /-- The id, unique within the conversation. -/
  id : String
  /-- The id of the message this one answers. -/
  parent : Option String := none
  /-- The ids of the messages that answer this one. -/
  children : List String := []
  /-- Who speaks. -/
  role : Role
  /-- What is said. -/
  content : String := ""
  /-- The model that wrote a response. -/
  model : Option String := none
  /-- The place among the siblings, if one was given. -/
  position : Option Int64 := none
  /-- When the message was created, in milliseconds since the epoch. -/
  createdAt : Int64
  /-- When the message was last changed. -/
  updatedAt : Option Int64 := none
  /-- The metering of a response. -/
  usage : Option Usage := none
  /-- Whether the content is complete. -/
  done : Bool := true
  /-- What went wrong while the response was written. -/
  error : Option String := none
deriving DecidableEq

namespace Message

/-- A complete message created at `now`. -/
def compose (role : Role) (content : String) (id : String) (now : Int64) : Message where
  id := id
  role := role
  content := content
  createdAt := now

/-- What the user says at `now`. -/
def ask (content : String) (id : String) (now : Int64) : Message :=
  compose .user content id now

/-- An empty response of `model`, not yet complete, that waits for its content. -/
def await (model : String) (id : String) (now : Int64) : Message :=
  { compose .assistant "" id now with model := some model, done := false }

/-- When the message was last changed, or created if it never was. -/
def lastTouched (m : Message) : Int64 :=
  m.updatedAt.getD m.createdAt

/-- Where the message stands among its siblings. -/
def rank (m : Message) : Rank :=
  ⟨m.position, m.createdAt, m.id⟩

end Message

end DialogueSync
