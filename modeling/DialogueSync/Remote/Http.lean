import DialogueSync.Codec.History
import DialogueSync.Http.Basic
import DialogueSync.Http.Url
import DialogueSync.Json.Printer
import DialogueSync.Json.Reader
import DialogueSync.Remote.Basic
import DialogueSync.Tree.Build

/-!
# The remote store behind HTTP

The remote store that a history server offers over HTTP. A response without success is a failure with its
status and body; a response that cannot be read as what was asked for is malformed. A server that does
not know outlines says so by its status, and a whole conversation may also come as a plain history.
-/

namespace DialogueSync.Remote

open Http (Transport)

/-- A history server at an address. -/
structure Api (τ : Type) where
  /-- The address without slashes at its end. -/
  base : String
  /-- The way to reach it. -/
  transport : τ

namespace Api

variable {τ : Type}

/-- The server at an address. -/
def connect (address : String) (transport : τ) : Api τ where
  base := String.ofList (address.toList.reverse.dropWhile (· = '/')).reverse
  transport := transport

/-! ### Requests -/

/-- The path under which the server keeps a conversation. -/
def conversationPath (conversation : String) : String :=
  "/api/conversations/" ++ conversation

/-- The request for a path of the server, with a JSON body if there is one; nothing if the address is not
one that can be asked. -/
def request? (a : Api τ) (method path : String) (body : Option Json) : Option Http.Request := do
  let target ← Http.Url.target? (a.base ++ path)
  return {
    method := method
    target := target
    contentType := body.map fun _ => "application/json"
    body := (body.map Json.render).getD "" }

/-- Asks for an outline. -/
def outlineRequest? (a : Api τ) (conversation : String) : Option Http.Request :=
  a.request? "GET" (conversationPath conversation ++ "/topology") none

/-- Asks for bodies. -/
def bodiesRequest? (a : Api τ) (conversation : String) (ids : List String) : Option Http.Request :=
  a.request? "POST" (conversationPath conversation ++ "/messages/batch")
    (some (encode (BodiesQuery.mk ids)))

/-- Asks for a whole conversation. -/
def snapshotRequest? (a : Api τ) (conversation : String) : Option Http.Request :=
  a.request? "GET" (conversationPath conversation ++ "/history") none

/-- Saves a conversation. -/
def saveRequest? (a : Api τ) (conversation : String) (r : SaveRequest) : Option Http.Request :=
  a.request? "PUT" (conversationPath conversation) (some (encode r))

/-! ### Responses -/

/-- The response if it says success, and its status as a failure otherwise. -/
def check (r : Http.Response) : Except Failure Http.Response :=
  if r.isSuccess then .ok r else .error (.status r.status r.body)

/-- The JSON value of a body, in canonical form. -/
def json (r : Http.Response) : Except Failure Json :=
  match Json.parse? r.body with
  | some j => .ok j.canonical
  | none => .error (.malformed "response is not JSON")

/-- What a JSON value of the right shape describes. -/
def shaped {α : Type} (decoded : Option α) : Except Failure α :=
  match decoded with
  | some x => .ok x
  | none => .error (.malformed "response has another shape")

/-- Reads an outline; a server that does not offer them answers that there is nothing, or that the method
is not allowed. -/
def readOutline (r : Http.Response) : Except Failure Outline :=
  if r.status = 404 || r.status = 405 then .error (.malformed "topology endpoint not available")
  else do
    let j ← json (← check r)
    shaped (decode j)

/-- Reads bodies. -/
def readBodies (r : Http.Response) : Except Failure (List Message) := do
  let j ← json (← check r)
  shaped (decode j)

/-- The snapshot that a JSON value describes: as a snapshot, or else as a plain history. -/
def decodeSnapshot (j : Json) : Option Snapshot :=
  (decode j).or ((decodeInline j).map fun h => (Tree.ofHistory h).snapshot)

/-- Reads a whole conversation. -/
def readSnapshot (r : Http.Response) : Except Failure Snapshot := do
  let j ← json (← check r)
  shaped (decodeSnapshot j)

/-- Reads the answer to saving, of which only the status counts. -/
def readSaved (r : Http.Response) : Except Failure Unit := do
  let _ ← check r
  return ()

/-! ### The store -/

/-- Sends a request and reads the response. -/
def exchange {α : Type} [Transport τ] (request : Option Http.Request)
    (reader : Http.Response → Except Failure α) (a : Api τ) : Except Failure α × Api τ :=
  match request with
  | none => (.error (.unreachable a.base "not an address"), a)
  | some r =>
    let (reply, transport) := Transport.send r a.transport
    let a := { a with transport := transport }
    match reply with
    | .ok response => (reader response, a)
    | .error reason => (.error (.unreachable a.base reason), a)

instance [Transport τ] : Remote (Api τ) where
  outline conversation a := exchange (a.outlineRequest? conversation) readOutline a
  bodies conversation ids a := exchange (a.bodiesRequest? conversation ids) readBodies a
  snapshot conversation a := exchange (a.snapshotRequest? conversation) readSnapshot a
  save conversation r a := exchange (a.saveRequest? conversation r) readSaved a

end Api

end DialogueSync.Remote
