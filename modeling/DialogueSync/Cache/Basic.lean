import DialogueSync.Cache.Record
import DialogueSync.Failure

/-!
# Local caches

What the client asks of a local cache, in any implementation: each call may fail, and each may change the
state of the cache.
-/

namespace DialogueSync

/-- A local cache with states in `κ`. -/
class Cache (κ : Type) where
  /-- The records of a conversation. -/
  read : String → κ → Except Failure (List Cache.Record) × κ
  /-- Stores records, each in the place of one with the same conversation and message id. -/
  put : List Cache.Record → κ → Except Failure Unit × κ
  /-- Drops the records of a conversation. -/
  drop : String → κ → Except Failure Unit × κ
  /-- Drops all records. -/
  clear : κ → Except Failure Unit × κ

end DialogueSync
