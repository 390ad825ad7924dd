import DialogueSync.Codec.Basic
import DialogueSync.Message

/-!
# Wire forms of messages

The fields have camel-case names. Of a usage only the figures that are there are written; of a message
all fields are, absent ones as null. A message must have an id, a role and a creation time; it counts as
complete unless it says otherwise.
-/

namespace DialogueSync

/-- A role is its written name. It may also be read from an object whose only field has this name and is null. -/
instance : Codec Role where
  encode r := .str r.name
  decode
    | .str s => Role.ofName? s
    | .obj [(s, .null)] => Role.ofName? s
    | _ => none

instance : Codec Usage where
  encode u := .obj <|
    Codec.present "promptTokens" u.promptTokens ++
    Codec.present "completionTokens" u.completionTokens ++
    Codec.present "totalTokens" u.totalTokens ++
    Codec.present "tokensPerSecond" u.tokensPerSecond ++
    Codec.present "timeToFirstTokenMs" u.timeToFirstToken ++
    Codec.present "elapsedMs" u.elapsed ++
    Codec.present "estimatedCost" u.estimatedCost
  decode j := do
    let f ← Codec.fields? j
    return {
      promptTokens := ← f.optional "promptTokens"
      completionTokens := ← f.optional "completionTokens"
      totalTokens := ← f.optional "totalTokens"
      tokensPerSecond := ← f.optional "tokensPerSecond"
      timeToFirstToken := ← f.optional "timeToFirstTokenMs"
      elapsed := ← f.optional "elapsedMs"
      estimatedCost := ← f.optional "estimatedCost" }

namespace Message

/-- The fields of a message. -/
def encodeFields (m : Message) : Codec.Fields := [
  ("id", encode m.id),
  ("parentId", Codec.encodeOption m.parent),
  ("childrenIds", encode m.children),
  ("role", encode m.role),
  ("content", encode m.content),
  ("modelId", Codec.encodeOption m.model),
  ("position", Codec.encodeOption m.position),
  ("createdAt", encode m.createdAt),
  ("updatedAt", Codec.encodeOption m.updatedAt),
  ("usage", Codec.encodeOption m.usage),
  ("done", encode m.done),
  ("error", Codec.encodeOption m.error)]

/-- The message that the fields of an object describe. -/
def decodeFields (f : Codec.Fields) : Option Message := do
  return {
    id := ← f.required "id"
    parent := ← f.optional "parentId"
    children := ← f.getD "childrenIds" []
    role := ← f.required "role"
    content := ← f.getD "content" ""
    model := ← f.optional "modelId"
    position := ← f.optional "position"
    createdAt := ← f.required "createdAt"
    updatedAt := ← f.optional "updatedAt"
    usage := ← f.optional "usage"
    done := ← f.getD "done" true
    error := ← f.optional "error" }

end Message

instance : Codec Message where
  encode m := .obj m.encodeFields
  decode j := (Codec.fields? j).bind Message.decodeFields

end DialogueSync
