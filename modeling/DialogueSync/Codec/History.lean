import DialogueSync.Codec.Message
import DialogueSync.History

/-!
# Wire forms of conversations

The forms of histories, outlines, snapshots and save requests. A history may leave everything out; an
outline must have its messages, a snapshot its two parts, and a save request its history.
-/

namespace DialogueSync

instance : Codec History where
  encode h := .obj [
    ("messages", encode h.messages),
    ("currentId", Codec.encodeOption h.current)]
  decode j := do
    let f ← Codec.fields? j
    return {
      messages := ← f.getD "messages" ∅
      current := ← f.optional "currentId" }

instance : Codec Node where
  encode n := .obj [
    ("parentId", Codec.encodeOption n.parent),
    ("childrenIds", encode n.children),
    ("fingerprint", encode n.fingerprint),
    ("position", Codec.encodeOption n.position),
    ("createdAt", encode n.createdAt)]
  decode j := do
    let f ← Codec.fields? j
    return {
      parent := ← f.optional "parentId"
      children := ← f.getD "childrenIds" []
      fingerprint := ← f.required "fingerprint"
      position := ← f.optional "position"
      createdAt := ← f.required "createdAt" }

instance : Codec Outline where
  encode o := .obj [
    ("messages", encode o.nodes),
    ("currentId", Codec.encodeOption o.current)]
  decode j := do
    let f ← Codec.fields? j
    return {
      nodes := ← f.required "messages"
      current := ← f.optional "currentId" }

instance : Codec Snapshot where
  encode s := .obj [
    ("topology", encode s.outline),
    ("bodies", encode s.bodies)]
  decode j := do
    let f ← Codec.fields? j
    return {
      outline := ← f.required "topology"
      bodies := ← f.required "bodies" }

instance : Codec SaveRequest where
  encode r := .obj [
    ("models", encode r.models),
    ("params", encode r.params),
    ("history", encode r.history),
    ("files", encode r.files)]
  decode j := do
    let f ← Codec.fields? j
    return {
      models := ← f.getD "models" []
      params := ← f.getD "params" .null
      history := ← f.required "history"
      files := ← f.getD "files" [] }

/-- The request with its free settings in canonical form, so that of two fields with one name the later
one counts there too. -/
def SaveRequest.canonical (r : SaveRequest) : SaveRequest :=
  { r with params := r.params.canonical, files := r.files.map Json.canonical }

/-- The ids of the messages whose bodies are asked for. -/
structure BodiesQuery where
  /-- The ids in the order of the question. -/
  ids : List String
deriving DecidableEq

instance : Codec BodiesQuery where
  encode q := .obj [("ids", encode q.ids)]
  decode j := do
    let f ← Codec.fields? j
    return { ids := ← f.required "ids" }

/-- A history with its bodies in the place of the outline and no other field, which stands for a
snapshot. -/
def decodeInline (j : Json) : Option History := do
  let f ← Codec.fields? j
  if f.all fun field => field.1 = "messages" || field.1 = "currentId" then
    return {
      messages := ← f.required "messages"
      current := ← f.optional "currentId" }
  else none

end DialogueSync
