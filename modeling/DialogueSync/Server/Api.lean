import DialogueSync.Codec.Shape
import DialogueSync.Http.Basic
import DialogueSync.Http.MediaType
import DialogueSync.Json.Printer
import DialogueSync.Json.Reader
import DialogueSync.Server.Service
import DialogueSync.Text.Percent
import DialogueSync.Time.Rfc3339

/-!
# The HTTP interface of the server

Which request asks for what, and how it is answered. A request is checked in a fixed order: the path, the
method, the conversation id in the path, the content type, the size of the body, and the body itself. A
body is read from left to right as what is asked for, and its first fault decides the answer: it is not
JSON, or it is JSON of another shape. Failures are answered by a status for their class and a body with
their wording.
-/

namespace DialogueSync.Server

open Http (Request)

/-- An answer of the server; the body is absent where there is none of its own. -/
structure Reply where
  /-- The status code. -/
  status : Nat
  /-- The body. -/
  body : Option Json := none

/-- The answer as a response. -/
def Reply.response (r : Reply) : Http.Response :=
  ⟨r.status, (r.body.map Json.render).getD ""⟩

/-! ### Answers -/

/-- The status for the class of a failure. -/
def statusOf (e : Failure) : Nat :=
  if e.isRefusal then 400
  else if e.isAbsence then 404
  else if e.isOutage then 503
  else 500

/-- The answer to a request that failed. -/
def refuse (e : Failure) : Reply :=
  ⟨statusOf e, some (.obj [("error", .str e.message)])⟩

/-- The answer to a question. -/
def answer {α : Type} [Codec α] (result : Except Failure α) : Reply :=
  match result with
  | .ok x => ⟨200, some (encode x)⟩
  | .error e => refuse e

/-- The written form of a summary. -/
def summaryJson (c : Summary) : Json := .obj [
  ("id", .str c.id),
  ("title", .str c.title),
  ("created_at", .str (Time.rfc3339 c.createdAt)),
  ("updated_at", .str (Time.rfc3339 c.updatedAt))]

/-! ### Routes -/

/-- What a path names; conversation ids are still percent-encoded. -/
inductive Route where
  /-- All conversations. -/
  | list
  /-- A conversation. -/
  | conversation (id : String)
  /-- The outline of a conversation. -/
  | outline (id : String)
  /-- Bodies of a conversation. -/
  | bodies (id : String)
  /-- A whole conversation. -/
  | snapshot (id : String)
deriving DecidableEq, Repr

/-- The pieces of a path between its slashes. -/
def pathSegments : List Char → List (List Char)
  | [] => [[]]
  | c :: rest =>
    match c, pathSegments rest with
    | '/', more => [] :: more
    | c, first :: more => (c :: first) :: more
    | c, [] => [[c]]

/-- What a path names. The id of a conversation is empty only where something follows it. -/
def route? (path : String) : Option Route :=
  match (pathSegments path.toList).map String.ofList with
  | ["", "api", "conversations"] => some .list
  | ["", "api", "conversations", id] => if id.isEmpty then none else some (.conversation id)
  | ["", "api", "conversations", id, "topology"] => some (.outline id)
  | ["", "api", "conversations", id, "messages", "batch"] => some (.bodies id)
  | ["", "api", "conversations", id, "history"] => some (.snapshot id)
  | _ => none

/-- The method that a route is asked with. -/
def Route.method : Route → String
  | list => "GET"
  | conversation _ => "PUT"
  | outline _ => "GET"
  | bodies _ => "POST"
  | snapshot _ => "GET"

/-- Whether a route answers a method. What can be asked for can also be asked for without its body. -/
def Route.allows (r : Route) (method : String) : Bool :=
  method = r.method || (method = "HEAD" && r.method = "GET")

/-! ### Bodies -/

/-- Whether a content type is one of JSON: in any case, with or without parameters. -/
def isJsonType (contentType : String) : Bool :=
  (Http.MediaType.read? contentType).any Http.MediaType.isJson

/-- How many bytes a body may have. -/
def maxBodySize : Nat := 2097152

/-- The answer to a body that cannot be read. -/
def refuseBody : Json.Fault → Reply
  | .malformed => ⟨400, none⟩
  | .mismatch => ⟨422, none⟩

/-- The value of some shape that the body of a request describes, or the answer that refuses it. -/
def readBody {α : Type} [Codec α] (shape : Json.Shape) (r : Request) : Except Reply α :=
  if !r.contentType.any isJsonType then .error ⟨415, none⟩
  else if maxBodySize < r.body.utf8ByteSize then .error ⟨413, none⟩
  else
    match Json.read shape r.body with
    | .error fault => .error (refuseBody fault)
    | .ok j => ((decode j).map Except.ok).getD (.error (refuseBody .mismatch))

/-! ### Handling requests -/

/-- The id of a conversation in a path, or the answer to one that is not UTF-8. -/
def pathId (id : String) : Except Reply String :=
  match Text.percentDecode? id with
  | some decoded => .ok decoded
  | none => .error ⟨400, none⟩

/-- Answers for bodies. -/
def handleBodies (db : Database) (id : String) (r : Request) : Except Reply Reply := do
  let conversation ← pathId id
  let query : BodiesQuery ← readBody BodiesQuery.shape r
  return answer (db.bodies conversation query.ids)

/-- Saves a conversation. -/
def handleSave (db : Database) (id : String) (r : Request) (now : Int64) :
    Except Reply (Reply × Database) := do
  let conversation ← pathId id
  let request : SaveRequest ← readBody SaveRequest.shape r
  match db.save conversation request.canonical now with
  | .ok db' => return (⟨204, none⟩, db')
  | .error e => return (refuse e, db)

/-- The answer itself, also where a request was refused early. -/
def settle {α : Type} : Except α α → α
  | .ok x => x
  | .error x => x

/-- The answer for a route that is asked with its method, and the database after it. -/
def answerRoute (db : Database) (route : Route) (r : Request) (now : Int64) : Reply × Database :=
  match route with
  | .list => (answer (db.conversations.map fun cs => Json.arr (cs.map summaryJson)), db)
  | .outline id => (settle ((pathId id).map fun c => answer (db.outline c)), db)
  | .snapshot id => (settle ((pathId id).map fun c => answer (db.snapshot c)), db)
  | .bodies id => (settle (handleBodies db id r), db)
  | .conversation id =>
    match handleSave db id r now with
    | .ok (reply, db') => (reply, db')
    | .error reply => (reply, db)

/-- Answers a request that arrives at `now`, and gives the database after it. -/
def handle (db : Database) (r : Request) (now : Int64) : Reply × Database :=
  match route? r.path with
  | none => (⟨404, none⟩, db)
  | some route =>
    if !route.allows r.method then (⟨405, none⟩, db)
    else
      let (reply, db') := answerRoute db route r now
      (if r.method = "HEAD" then { reply with body := none } else reply, db')

end DialogueSync.Server
