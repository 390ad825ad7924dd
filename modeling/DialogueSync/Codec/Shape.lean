import DialogueSync.Codec.History
import DialogueSync.Json.Shape

/-!
# Shapes of requests

The shapes that the bodies of requests are read with. They list the fields in the order in which an array
that stands for the object holds their values; what may be missing or null is as in the wire forms.
-/

namespace DialogueSync

/-- Whole numbers that fit in 64 bits with a sign. -/
def Json.Shape.int64 : Json.Shape :=
  .int Int64.minValue.toInt Int64.maxValue.toInt

/-- Whole numbers that fit in 64 bits without a sign. -/
def Json.Shape.uint64 : Json.Shape :=
  .int 0 (UInt64.size - 1)

open Json.Shape (required missable)

/-- A role is one of the names of the roles. -/
def Role.shape : Json.Shape :=
  .choice ([Role.user, .assistant, .system].map Role.name)

/-- The shape of a usage. -/
def Usage.shape : Json.Shape := .record [
  missable "promptTokens" (.optional .uint64),
  missable "completionTokens" (.optional .uint64),
  missable "totalTokens" (.optional .uint64),
  missable "tokensPerSecond" (.optional .number),
  missable "timeToFirstTokenMs" (.optional .int64),
  missable "elapsedMs" (.optional .int64),
  missable "estimatedCost" (.optional .number)]

/-- The shape of a message. -/
def Message.shape : Json.Shape := .record [
  required "id" .text,
  missable "parentId" (.optional .text),
  missable "childrenIds" (.list .text),
  required "role" Role.shape,
  missable "content" .text,
  missable "modelId" (.optional .text),
  missable "position" (.optional .int64),
  required "createdAt" .int64,
  missable "updatedAt" (.optional .int64),
  missable "usage" (.optional Usage.shape),
  missable "done" .bool,
  missable "error" (.optional .text)]

/-- The shape of a history. -/
def History.shape : Json.Shape := .record [
  missable "messages" (.dict Message.shape),
  missable "currentId" (.optional .text)]

/-- The shape of a request to save a conversation. -/
def SaveRequest.shape : Json.Shape := .record [
  missable "models" (.list .text),
  missable "params" .free,
  required "history" History.shape,
  missable "files" (.list .free)]

/-- The shape of a question for bodies. -/
def BodiesQuery.shape : Json.Shape := .record [
  required "ids" (.list .text)]

end DialogueSync
