import DialogueSync.Failure
import DialogueSync.History

/-!
# Remote stores

What the client asks of the store that holds the conversations for good, in any implementation: each call
may fail, and each may change the state of the store.
-/

namespace DialogueSync

/-- A remote store with states in `ρ`. -/
class Remote (ρ : Type) where
  /-- The links and fingerprints of a conversation. -/
  outline : String → ρ → Except Failure Outline × ρ
  /-- The bodies of some messages of a conversation. -/
  bodies : String → List String → ρ → Except Failure (List Message) × ρ
  /-- A whole conversation. -/
  snapshot : String → ρ → Except Failure Snapshot × ρ
  /-- Replaces a conversation. -/
  save : String → SaveRequest → ρ → Except Failure Unit × ρ

end DialogueSync
