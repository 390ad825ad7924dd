import DialogueSync.IdMap
import DialogueSync.Message
import DialogueSync.Json.Basic

/-!
# Written forms of a conversation

A conversation is exchanged in three forms: its messages with the selected one (`History`), its links and
fingerprints without the bodies (`Outline`), and the outline together with all bodies (`Snapshot`). A
save request carries a history and the settings it was made under.
-/

namespace DialogueSync

/-- The messages of a conversation and which one is selected. -/
structure History where
  /-- The messages by id. -/
  messages : IdMap Message := ∅
  /-- The id of the selected message. -/
  current : Option String := none
deriving DecidableEq, Inhabited

/-- What an outline tells about one message. -/
structure Node where
  /-- The id of the parent. -/
  parent : Option String := none
  /-- The ids of the children in sibling order. -/
  children : List String := []
  /-- The fingerprint of the body. -/
  fingerprint : String
  /-- The place among the siblings, if one was given. -/
  position : Option Int64 := none
  /-- When the message was created. -/
  createdAt : Int64
deriving DecidableEq

/-- The links and fingerprints of a conversation, without the bodies. -/
structure Outline where
  /-- The nodes by message id. -/
  nodes : IdMap Node := ∅
  /-- The id of the selected message. -/
  current : Option String := none
deriving DecidableEq, Inhabited

namespace Outline

/-- The number of messages. -/
def size (o : Outline) : Nat :=
  o.nodes.size

/-- Whether there is no message. -/
def isEmpty (o : Outline) : Bool :=
  o.nodes.isEmpty

/-- The message with parent, children and position taken from the outline, if the outline knows it. -/
def link (o : Outline) (m : Message) : Message :=
  match o.nodes[m.id]? with
  | some n => { m with parent := n.parent, children := n.children, position := n.position }
  | none => m

/-- Linking keeps the id. -/
@[simp] theorem id_link (o : Outline) (m : Message) : (o.link m).id = m.id := by
  unfold link
  split <;> rfl

end Outline

/-- An outline together with bodies. -/
structure Snapshot where
  /-- The links and fingerprints. -/
  outline : Outline := {}
  /-- The bodies. -/
  bodies : List Message := []
deriving DecidableEq, Inhabited

/-- A history to save and the settings it was made under. -/
structure SaveRequest where
  /-- The models in use. -/
  models : List String := []
  /-- Free settings. -/
  params : Json := .null
  /-- The whole conversation. -/
  history : History
  /-- Free descriptions of attached files. -/
  files : List Json := []

end DialogueSync
