import DialogueSync.Client.Session

/-!
# Operations on a session

The things that can be done with a session, as values, so that whole runs can be spoken about. The time
passes and the stores change on their own only between operations.
-/

namespace DialogueSync.Client

/-- Something that is done with a session. -/
inductive Operation where
  /-- Opens a new conversation. -/
  | startNew (conversation : String)
  /-- Synchronises a conversation and shows it. -/
  | load (conversation : String)
  /-- Attaches a message. -/
  | attach (parent : Option String) (m : Message)
  /-- Selects the branch through a message. -/
  | select (id : String)
  /-- Notes that the request for a response was sent. -/
  | noteRequest (id : String) (sentAt : Int64)
  /-- Applies an increment of a response. -/
  | receive (id : String) (d : Delta)
  /-- Makes a response complete. -/
  | finish (id : String)
  /-- Stops a response. -/
  | stop (id : String)
  /-- Takes out a message with everything below it. -/
  | delete (id : String)
  /-- Clears the cache. -/
  | recoverCache

/-- What an operation answers. -/
inductive Answer where
  /-- Nothing. -/
  | nothing
  /-- The conversation as it is now. -/
  | history (h : History)
  /-- The selected message. -/
  | current (id : Option String)
  /-- Success or failure. -/
  | result (r : Except Failure Unit)
  /-- What became of an increment. -/
  | outcome (r : Except Failure Outcome)
  /-- Whether something was done. -/
  | flag (b : Bool)

namespace Session

variable {ρ κ : Type} [Remote ρ] [Cache κ]

/-- Does an operation. -/
def perform (s : Session ρ κ) : Operation → Answer × Session ρ κ
  | .startNew conversation => (.nothing, s.startNew conversation)
  | .load conversation =>
    let s := s.load conversation
    (.history s.tree.toHistory, s)
  | .attach parent m =>
    let (r, s) := s.attach parent m
    (.result r, s)
  | .select id =>
    let s := s.select id
    (.current s.tree.current, s)
  | .noteRequest id sentAt => (.nothing, s.noteRequest id sentAt)
  | .receive id d =>
    let (r, s) := s.receive id d
    (.outcome r, s)
  | .finish id =>
    let (r, s) := s.finish id
    (.result r, s)
  | .stop id =>
    let (r, s) := s.stop id
    (.result r, s)
  | .delete id =>
    let (r, s) := s.delete id
    (.result r, s)
  | .recoverCache =>
    let (b, s) := s.recoverCache
    (.flag b, s)

/-- The session after an operation. -/
def after (s : Session ρ κ) (op : Operation) : Session ρ κ :=
  (s.perform op).2

end Session

end DialogueSync.Client
