import DialogueSync.Codec.Message
import DialogueSync.Fingerprint
import DialogueSync.IdMap

/-!
# Cached records

What the local cache keeps of a message: the message itself, the conversation it belongs to, the
fingerprint it was stored under and the time of storing. The written form is flat, the fields of the
message beside the three others.
-/

namespace DialogueSync.Cache

/-- A message in the local cache. -/
structure Record where
  /-- The conversation that the message belongs to. -/
  conversation : String
  /-- The message. -/
  message : Message
  /-- The fingerprint that the message was stored under. -/
  fingerprint : String
  /-- When the record was made. -/
  cachedAt : Int64
deriving DecidableEq

namespace Record

/-- The record of a message under its own fingerprint. -/
def own (conversation : String) (m : Message) (now : Int64) : Record :=
  ⟨conversation, m, m.fingerprint, now⟩

/-- The id of the message. -/
def id (r : Record) : String :=
  r.message.id

/-- The records of a list by the ids of their messages. -/
def byId (rs : List Record) : IdMap Record :=
  IdMap.collect id rs

end Record

/-- The names of the fields that a record has beside those of its message. -/
def ownFields : List String :=
  ["conversationId", "fingerprint", "cachedAt"]

instance : Codec Record where
  encode r := .obj <|
    ("conversationId", encode r.conversation) :: r.message.encodeFields ++
      [("fingerprint", encode r.fingerprint), ("cachedAt", encode r.cachedAt)]
  decode j := do
    let f ← Codec.fields? j
    return {
      conversation := ← f.required "conversationId"
      message := ← Message.decodeFields (f.filter fun field => !ownFields.contains field.1)
      fingerprint := ← f.required "fingerprint"
      cachedAt := ← f.required "cachedAt" }

end DialogueSync.Cache
