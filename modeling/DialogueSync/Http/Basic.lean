/-!
# HTTP messages

Requests and responses as far as the client and the server look at them, and what a client needs to send
a request.
-/

namespace DialogueSync.Http

/-- A request as it arrives at a server. -/
structure Request where
  /-- The method. -/
  method : String
  /-- The path and, behind a question mark, the query. -/
  target : String
  /-- The content type of the body, if one is stated. -/
  contentType : Option String := none
  /-- The body. -/
  body : String := ""
deriving DecidableEq, Repr

/-- A response. -/
structure Response where
  /-- The status code. -/
  status : Nat
  /-- The body. -/
  body : String := ""
deriving DecidableEq, Repr

/-- Whether the status says that the request succeeded. -/
def Response.isSuccess (r : Response) : Bool :=
  200 ≤ r.status && r.status < 300

/-- The path of a request, without a query and a fragment. -/
def Request.path (r : Request) : String :=
  String.ofList (r.target.toList.takeWhile fun c => c ≠ '?' && c ≠ '#')

/-- A way to send requests, with states in `τ`. A server that cannot be reached is an error with the
reason. -/
class Transport (τ : Type) where
  /-- Sends a request and waits for the response. -/
  send : Request → τ → Except String Response × τ

/-- The transport that reaches no server. -/
structure Offline where
  /-- Why nothing can be reached. -/
  reason : String := "no connection"
deriving DecidableEq, Repr

instance : Transport Offline where
  send _ t := (.error t.reason, t)

end DialogueSync.Http
