import DialogueSync.Cache.Basic
import DialogueSync.Remote.Basic

/-!
# The two stores of a client

A client works on a remote store and a local cache. Every call it makes on either is noted together with
its reply. Failures of the cache never reach the user: a failed read counts as nothing read, a failed
write as nothing written. A write that is refused because the cache is full is tried once more on a
cleared cache; if that does not succeed either, the cache is given up until it can be cleared.
-/

namespace DialogueSync.Client

open Cache (Record)

/-- A call on one of the two stores, and its reply. -/
inductive Call where
  /-- The outline of a conversation was asked for. -/
  | outline (conversation : String) (reply : Except Failure Outline)
  /-- Bodies of a conversation were asked for. -/
  | bodies (conversation : String) (ids : List String) (reply : Except Failure (List Message))
  /-- A whole conversation was asked for. -/
  | snapshot (conversation : String) (reply : Except Failure Snapshot)
  /-- A conversation was saved. -/
  | save (conversation : String) (request : SaveRequest) (reply : Except Failure Unit)
  /-- The cached records of a conversation were read. -/
  | read (conversation : String) (reply : Except Failure (List Record))
  /-- Records were written to the cache. -/
  | put (records : List Record) (reply : Except Failure Unit)
  /-- The cached records of a conversation were dropped. -/
  | drop (conversation : String) (reply : Except Failure Unit)
  /-- All cached records were dropped. -/
  | clear (reply : Except Failure Unit)

/-- A remote store and a local cache, with what the client keeps about them. -/
structure Stores (ρ κ : Type) where
  /-- The remote store. -/
  remote : ρ
  /-- The local cache. -/
  cache : κ
  /-- Whether the cache has been given up. -/
  degraded : Bool := false
  /-- The time, in milliseconds since the epoch. -/
  clock : Int64 := 0
  /-- The calls made so far, earliest first. -/
  calls : List Call := []

namespace Stores

variable {ρ κ : Type}

/-- Notes a call. -/
def note (s : Stores ρ κ) (c : Call) : Stores ρ κ :=
  { s with calls := s.calls ++ [c] }

/-! ### Calls on the remote store -/

section Remote

variable [Remote ρ]

/-- Asks for the outline of a conversation. -/
def askOutline (s : Stores ρ κ) (conversation : String) : Except Failure Outline × Stores ρ κ :=
  let (reply, remote) := Remote.outline conversation s.remote
  (reply, { s with remote := remote }.note (.outline conversation reply))

/-- Asks for bodies of a conversation. -/
def askBodies (s : Stores ρ κ) (conversation : String) (ids : List String) :
    Except Failure (List Message) × Stores ρ κ :=
  let (reply, remote) := Remote.bodies conversation ids s.remote
  (reply, { s with remote := remote }.note (.bodies conversation ids reply))

/-- Asks for a whole conversation. -/
def askSnapshot (s : Stores ρ κ) (conversation : String) : Except Failure Snapshot × Stores ρ κ :=
  let (reply, remote) := Remote.snapshot conversation s.remote
  (reply, { s with remote := remote }.note (.snapshot conversation reply))

/-- Saves a conversation. -/
def save (s : Stores ρ κ) (conversation : String) (request : SaveRequest) :
    Except Failure Unit × Stores ρ κ :=
  let (reply, remote) := Remote.save conversation request s.remote
  (reply, { s with remote := remote }.note (.save conversation request reply))

end Remote

/-! ### Calls on the cache -/

section Cache

variable [Cache κ]

/-- Reads the cached records of a conversation. -/
def callRead (s : Stores ρ κ) (conversation : String) :
    Except Failure (List Record) × Stores ρ κ :=
  let (reply, cache) := Cache.read conversation s.cache
  (reply, { s with cache := cache }.note (.read conversation reply))

/-- Writes records to the cache. -/
def callPut (s : Stores ρ κ) (records : List Record) : Except Failure Unit × Stores ρ κ :=
  let (reply, cache) := Cache.put records s.cache
  (reply, { s with cache := cache }.note (.put records reply))

/-- Drops the cached records of a conversation. -/
def callDrop (s : Stores ρ κ) (conversation : String) : Except Failure Unit × Stores ρ κ :=
  let (reply, cache) := Cache.drop conversation s.cache
  (reply, { s with cache := cache }.note (.drop conversation reply))

/-- Drops all cached records. -/
def callClear (s : Stores ρ κ) : Except Failure Unit × Stores ρ κ :=
  let (reply, cache) := Cache.clear s.cache
  (reply, { s with cache := cache }.note (.clear reply))

/-! ### Using the cache -/

/-- Gives the cache up. -/
def giveUp (s : Stores ρ κ) : Stores ρ κ :=
  { s with degraded := true }

/-- The cached records of a conversation, or nothing if the cache cannot be read. -/
def cachedRecords (s : Stores ρ κ) (conversation : String) : Option (List Record) × Stores ρ κ :=
  if s.degraded then (none, s)
  else
    let (reply, s) := s.callRead conversation
    (reply.toOption, s)

/-- Clears a full cache and writes once more; if either fails, the cache is given up. -/
def clearAndRetry (s : Stores ρ κ) (records : List Record) : Bool × Stores ρ κ :=
  match s.callClear with
  | (.error _, s) => (false, s.giveUp)
  | (.ok (), s) =>
    match s.callPut records with
    | (.ok (), s) => (true, s)
    | (.error _, s) => (false, s.giveUp)

/-- Writes records to the cache and tells whether they were stored. -/
def store (s : Stores ρ κ) (records : List Record) : Bool × Stores ρ κ :=
  if s.degraded then (false, s)
  else if records.isEmpty then (true, s)
  else
    match s.callPut records with
    | (.ok (), s) => (true, s)
    | (.error e, s) => if e.isFull then s.clearAndRetry records else (false, s)

/-- Drops the cached records of a conversation and tells whether that was done. -/
def discard (s : Stores ρ κ) (conversation : String) : Bool × Stores ρ κ :=
  if s.degraded then (false, s)
  else
    match s.callDrop conversation with
    | (.ok (), s) => (true, s)
    | (.error _, s) => (false, s)

/-- Puts records in the place of those of a conversation; nothing is written if those could not be
dropped. -/
def overwrite (s : Stores ρ κ) (conversation : String) (records : List Record) : Bool × Stores ρ κ :=
  match s.discard conversation with
  | (true, s) => s.store records
  | (false, s) => (false, s)

/-- Clears the cache, after which it is used again. -/
def recover (s : Stores ρ κ) : Bool × Stores ρ κ :=
  match s.callClear with
  | (.ok (), s) => (true, { s with degraded := false })
  | (.error _, s) => (false, s)

end Cache

end Stores

end DialogueSync.Client
