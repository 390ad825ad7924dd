import DialogueSync.Codec.Message
import DialogueSync.IdMap
import DialogueSync.Stream.Metrics

/-!
# Streamed responses

A response arrives in increments, each of which may add content, report figures or an error, or end the
response. While it is in flight its timing is kept under its id; when it is finished the timing is used
up and the message is complete. Nothing is applied to a complete message.
-/

namespace DialogueSync

/-- One increment of a response. -/
structure Delta where
  /-- Content to append. -/
  content : Option String := none
  /-- Figures that the provider reports. -/
  usage : Option Usage := none
  /-- What went wrong. -/
  error : Option String := none
  /-- Whether this is the last increment. -/
  done : Bool := false
deriving DecidableEq

instance : Codec Delta where
  encode d := .obj [
    ("content", Codec.encodeOption d.content),
    ("usage", Codec.encodeOption d.usage),
    ("error", Codec.encodeOption d.error),
    ("done", encode d.done)]
  decode j := do
    let f ← Codec.fields? j
    return {
      content := ← f.optional "content"
      usage := ← f.optional "usage"
      error := ← f.optional "error"
      done := ← f.getD "done" false }

/-- What became of an increment. -/
inductive Outcome where
  /-- It was applied, and more may follow. -/
  | applied
  /-- It was applied and ends the response. -/
  | finished
  /-- The message was complete already. -/
  | ignored
deriving DecidableEq, Repr

namespace Delta

/-- The content that the increment adds, if it adds any. -/
def chunk? (d : Delta) : Option String :=
  d.content.filter fun s => !s.isEmpty

/-- The message with the increment applied. -/
def applyTo (d : Delta) (m : Message) : Message :=
  { m with
    content := m.content ++ d.chunk?.getD ""
    usage := match d.usage with
      | some report => some ((m.usage.getD {}).override report)
      | none => m.usage
    error := d.error.or m.error }

end Delta

/-- The timings of the responses in flight, by message id. -/
abbrev Streams := IdMap Timing

namespace Streams

/-- Notes that the request for a response was sent. -/
def start (s : Streams) (id : String) (sentAt : Int64) : Streams :=
  s.insert id { sentAt := sentAt }

/-- Whether a response is in flight. -/
def isActive (s : Streams) (id : String) : Bool :=
  s.contains id

/-- The ids of the responses in flight, in their order. -/
def active (s : Streams) : List String :=
  s.keys

/-- Gives up on a response. -/
def forget (s : Streams) (id : String) : Streams :=
  s.erase id

/-- The timing of a response after an increment came at `now`. A response without a timing counts as sent
at `now`, and only content makes a first token. -/
def timingAfter (timing : Option Timing) (d : Delta) (now : Int64) : Timing :=
  let timing := timing.getD { sentAt := now }
  match d.chunk? with
  | some _ => { timing with firstTokenAt := timing.firstTokenAt.or (some now) }
  | none => timing

/-- Applies an increment that came at `now`. -/
def apply (s : Streams) (m : Message) (d : Delta) (now : Int64) : Outcome × Message × Streams :=
  if m.done then (.ignored, m, s)
  else
    (if d.done then .finished else .applied, d.applyTo m, s.insert m.id (timingAfter s[m.id]? d now))

/-- The message made complete at `now`, with the figures that can be derived; a usage without any figure
is left out. -/
def complete (m : Message) (timing : Option Timing) (pricing : Option Pricing) (now : Int64) : Message :=
  let usage := (m.usage.getD {}).derive timing pricing now
  { m with
    done := true
    updatedAt := some now
    usage := if usage.isReported then some usage else none }

/-- Finishes a response at `now`. Nothing happens, and the answer is false, if the message is complete and
not in flight. -/
def finish (s : Streams) (m : Message) (pricing : Option Pricing) (now : Int64) :
    Bool × Message × Streams :=
  if m.done && !s.isActive m.id then (false, m, s)
  else (true, complete m s[m.id]? pricing now, s.erase m.id)

/-- Nothing is applied to a complete message. -/
theorem apply_of_done {s : Streams} {m : Message} (h : m.done = true) (d : Delta) (now : Int64) :
    s.apply m d now = (.ignored, m, s) := by
  simp [apply, h]

/-- A response that was started is in flight. -/
@[simp] theorem isActive_start (s : Streams) (id : String) (sentAt : Int64) :
    (s.start id sentAt).isActive id := by
  simp [start, isActive]

/-- A response that was given up is not in flight. -/
@[simp] theorem isActive_forget (s : Streams) (id : String) : (s.forget id).isActive id = false := by
  simp [forget, isActive]

end Streams

end DialogueSync
