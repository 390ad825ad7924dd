/-!
# Failures

Everything that can go wrong between a client, its cache, the remote store and the database, as one type
of causes. The wording of each cause and the classes that decide what is done about it are functions of
the cause.
-/

namespace DialogueSync

/-- Why an operation failed. -/
inductive Failure where
  /-- A database statement failed. -/
  | query (statement : String)
  /-- The conversation does not exist. -/
  | unknownConversation (id : String)
  /-- The remote store could not be reached. -/
  | unreachable (url reason : String)
  /-- The remote store answered with a status other than success. -/
  | status (code : Nat) (body : String)
  /-- The remote store answered with something that is not what was asked for. -/
  | malformed (reason : String)
  /-- The remote store left out bodies that were asked for. -/
  | missingBodies (ids : List String)
  /-- The local cache is full. -/
  | cacheFull
  /-- The local cache could not be used. -/
  | cacheFailed (reason : String)
  /-- The message is not in the conversation. -/
  | unknownMessage (id : String)
  /-- The message would come to stand under itself. -/
  | wouldCycle (id parent : String)
  /-- No conversation is open. -/
  | noConversation
  /-- A field that must hold something is blank. -/
  | blankField (name : String)
  /-- A history contradicts itself. -/
  | faultyHistory (reason : String)
  /-- A setting without a default is missing. -/
  | missingSetting (name : String)
  /-- Anything else. -/
  | unexpected (reason : String)
deriving DecidableEq, Repr

namespace Failure

/-- What is shown or logged about a failure. -/
def message : Failure → String
  | query statement => s!"Database query failed: {statement}"
  | unknownConversation id => s!"Conversation '{id}' not found"
  | unreachable url reason => s!"Remote store unreachable at {url}: {reason}"
  | status code body => s!"Remote store returned {Nat.repr code}: {body}"
  | malformed reason => s!"Remote store returned an unrecognized payload: {reason}"
  | missingBodies ids => s!"Remote store omitted {Nat.repr ids.length} requested bodies"
  | cacheFull => "Local cache quota exceeded"
  | cacheFailed reason => s!"Local cache unavailable: {reason}"
  | unknownMessage id => s!"Message '{id}' not found"
  | wouldCycle id parent => s!"Cannot attach '{id}' under its own descendant '{parent}'"
  | noConversation => "No conversation is open"
  | blankField name => s!"Field '{name}' cannot be empty"
  | faultyHistory reason => s!"Invalid history: {reason}"
  | missingSetting name => s!"Missing configuration value {name}"
  | unexpected reason => s!"Unexpected error: {reason}"

/-- Something that was asked for does not exist. -/
def isAbsence : Failure → Bool
  | unknownConversation _ | unknownMessage _ => true
  | _ => false

/-- The input was refused. -/
def isRefusal : Failure → Bool
  | blankField _ | faultyHistory _ | wouldCycle .. => true
  | _ => false

/-- A service that the operation depends on is away. -/
def isOutage : Failure → Bool
  | unreachable .. => true
  | _ => false

/-- The cache refused a write because it is full. -/
def isFull : Failure → Bool
  | cacheFull => true
  | _ => false

/-- A differential pass that failed in this way is expected to be made up for by a full fetch. -/
def excusesWholeFetch : Failure → Bool
  | unreachable .. | status .. | malformed _ | missingBodies _ => true
  | _ => false

end Failure

end DialogueSync
