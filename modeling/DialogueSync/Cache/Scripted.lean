import DialogueSync.Cache.Basic

/-!
# Caches that fail on schedule

A cache in front of which stands a schedule: for each kind of call a list that says of the next calls
whether they fail, and how. A call that fails does not reach the cache behind it; when the list has run
out, no call fails any more.
-/

namespace DialogueSync.Cache

/-- A cache behind a schedule of failures. -/
structure Scripted (κ : Type) where
  /-- The cache behind the schedule. -/
  inner : κ
  /-- The failures of the next reads. -/
  reads : List (Option Failure) := []
  /-- The failures of the next writes. -/
  puts : List (Option Failure) := []
  /-- The failures of the next calls that drop a conversation. -/
  drops : List (Option Failure) := []
  /-- The failures of the next calls that drop everything. -/
  clears : List (Option Failure) := []

namespace Scripted

variable {κ : Type}

/-- What the schedule says of the next call. -/
def due (schedule : List (Option Failure)) : Option Failure :=
  schedule.head?.join

/-- A call that fails if it is due to, and otherwise goes to the cache behind the schedule. -/
def pass {α : Type} (failure : Option Failure) (call : κ → Except Failure α × κ) (s : Scripted κ) :
    Except Failure α × Scripted κ :=
  match failure with
  | some e => (.error e, s)
  | none => let (reply, inner) := call s.inner; (reply, { s with inner := inner })

end Scripted

instance {κ : Type} [Cache κ] : Cache (Scripted κ) where
  read conversation s :=
    Scripted.pass (Scripted.due s.reads) (Cache.read conversation) { s with reads := s.reads.tail }
  put batch s := Scripted.pass (Scripted.due s.puts) (Cache.put batch) { s with puts := s.puts.tail }
  drop conversation s :=
    Scripted.pass (Scripted.due s.drops) (Cache.drop conversation) { s with drops := s.drops.tail }
  clear s := Scripted.pass (Scripted.due s.clears) Cache.clear { s with clears := s.clears.tail }

end DialogueSync.Cache
