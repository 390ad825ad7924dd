import DialogueSync.Client.Stores
import DialogueSync.Tree.Build

/-!
# Synchronising a conversation

A differential pass compares the outline of the remote store with the cached records, fetches the bodies
that are missing or out of date, and puts the conversation together from what the cache holds afterwards
and what is in hand. If it fails at any point its work is discarded and the whole conversation is fetched
in one call; if that fails too, so does synchronising.
-/

namespace DialogueSync.Client

open Cache (Record)

/-- How a conversation was synchronised. -/
inductive Mode where
  /-- From the outline and the changed bodies. -/
  | differential
  /-- From a whole conversation. -/
  | full
deriving DecidableEq, Repr

/-- What synchronising did. -/
structure Report where
  /-- How the conversation was synchronised. -/
  mode : Mode
  /-- How many bodies were fetched. -/
  fetched : Nat
  /-- Whether the cache held more messages than the remote store. -/
  purged : Bool
  /-- How many messages the conversation has. -/
  total : Nat
deriving DecidableEq, Repr

/-! ### Comparing with the outline -/

/-- Whether a record carries the fingerprint of a node. -/
def Current (r : Record) (n : Node) : Prop :=
  r.fingerprint = n.fingerprint

instance (r : Record) (n : Node) : Decidable (Current r n) :=
  inferInstanceAs (Decidable (_ = _))

/-- The ids of the outline for which no record with the right fingerprint is held, in their order. -/
def wanted (o : Outline) (held : IdMap Record) : List String :=
  (o.nodes.filter fun id n => !(held[id]?.any fun r => Current r n)).keys

/-- The bodies of a reply that belong to the outline, linked to it; of two with one id the later counts. -/
def accept (o : Outline) (reply : List Message) : IdMap Message :=
  IdMap.collect Message.id ((reply.filter fun m => o.nodes.contains m.id).map o.link)

/-- The records to be written for fetched bodies, under the fingerprints of the outline. -/
def fetchedRecords (conversation : String) (o : Outline) (ids : List String)
    (fetched : IdMap Message) (now : Int64) : List Record :=
  ids.filterMap fun id => do
    let n ← o.nodes[id]?
    let m ← fetched[id]?
    return ⟨conversation, m, n.fingerprint, now⟩

/-- The records with the fingerprint that the outline gives for their id. -/
def matching (o : Outline) (records : List Record) : IdMap Record :=
  Record.byId (records.filter fun r => o.nodes[r.id]?.any fun n => Current r n)

/-! ### Putting the conversation together -/

/-- Where the body of a message comes from. -/
inductive Body where
  /-- The cache holds it. -/
  | stored (m : Message)
  /-- It is in hand, and the cache has lost it. -/
  | inHand (m : Message)

/-- The message, wherever it comes from. -/
def Body.message : Body → Message
  | stored m => m
  | inHand m => m

/-- The body for a node: from the cache as it is now, else from the reply, else from a record that was
read before and has the right fingerprint. -/
def bodyFor (reloaded : IdMap Record) (fetched : IdMap Message) (held : IdMap Record) (id : String)
    (n : Node) : Option Body :=
  match reloaded[id]? with
  | some r => some (.stored r.message)
  | none =>
    let recovered := fetched[id]?.or ((held[id]?.filter fun r => Current r n).map Record.message)
    recovered.map .inHand

/-- The record to be written for a body that the cache has lost. -/
def lostRecord (conversation : String) (o : Outline) (n : Node) (now : Int64) : Body → Option Record
  | .stored _ => none
  | .inHand m => some ⟨conversation, o.link m, n.fingerprint, now⟩

/-- A conversation put together. -/
structure Assembly where
  /-- The bodies, linked to the outline. -/
  bodies : IdMap Message
  /-- The records that the cache has lost. -/
  lost : List Record

/-- Puts together the bodies of an outline. -/
def assemble (conversation : String) (o : Outline) (reloaded : IdMap Record)
    (fetched : IdMap Message) (held : IdMap Record) (now : Int64) : Assembly where
  bodies := o.nodes.filterMap fun id n =>
    (bodyFor reloaded fetched held id n).map fun b => o.link b.message
  lost := o.nodes.toList.filterMap fun e =>
    (bodyFor reloaded fetched held e.1 e.2).bind (lostRecord conversation o e.2 now)

/-! ### The passes -/

namespace Stores

variable {ρ κ : Type} [Remote ρ] [Cache κ]

/-- What the start of a pass settles about the cache. -/
structure Holdings where
  /-- The records in hand. -/
  held : IdMap Record
  /-- Whether the cache held more messages than the outline. -/
  stale : Bool
  /-- Whether the cache may be written to in this pass. -/
  writable : Bool

/-- Reads the cached records of a conversation. If there are more of them than the outline has messages,
they are dropped; if that fails, the cache is not written to in this pass. -/
def takeStock (s : Stores ρ κ) (conversation : String) (o : Outline) : Holdings × Stores ρ κ :=
  let (read, s) := s.cachedRecords conversation
  let held := Record.byId (read.getD [])
  if o.size < held.size then
    match s.discard conversation with
    | (true, s) => (⟨∅, true, true⟩, s)
    | (false, s) => (⟨held, true, false⟩, s)
  else (⟨held, false, true⟩, s)

/-- Fetches the bodies of some messages, all of which must come; nothing is asked for no message. -/
def fetch (s : Stores ρ κ) (conversation : String) (o : Outline) (ids : List String) :
    Except Failure (IdMap Message) × Stores ρ κ :=
  if ids.isEmpty then (.ok ∅, s)
  else
    match s.askBodies conversation ids with
    | (.error e, s) => (.error e, s)
    | (.ok reply, s) =>
      let fetched := accept o reply
      let missing := ids.filter fun id => !fetched.contains id
      if missing.isEmpty then (.ok fetched, s) else (.error (.missingBodies missing), s)

/-- Writes records unless the cache is not to be written to. -/
def storeIf (s : Stores ρ κ) (writable : Bool) (records : List Record) : Stores ρ κ :=
  if writable then (s.store records).2 else s

/-- The rest of a differential pass, once the bodies are fetched. -/
def finishPass (s : Stores ρ κ) (conversation : String) (o : Outline) (h : Holdings)
    (ids : List String) (fetched : IdMap Message) : Except Failure (Tree × Report) × Stores ρ κ :=
  let s := s.storeIf h.writable (fetchedRecords conversation o ids fetched s.clock)
  let (reread, s) := s.cachedRecords conversation
  let a := assemble conversation o (matching o (reread.getD [])) fetched h.held s.clock
  let missing := o.nodes.keys.filter fun id => !a.bodies.contains id
  if missing.isEmpty then
    let s := s.storeIf h.writable a.lost
    let tree := Tree.ofMessages a.bodies.values o.current
    (.ok (tree, ⟨.differential, fetched.size, h.stale, tree.size⟩), s)
  else (.error (.missingBodies missing), s)

/-- The differential pass. -/
def refreshChanged (s : Stores ρ κ) (conversation : String) :
    Except Failure (Tree × Report) × Stores ρ κ :=
  match s.askOutline conversation with
  | (.error e, s) => (.error e, s)
  | (.ok o, s) =>
    let (h, s) := s.takeStock conversation o
    let ids := wanted o h.held
    match s.fetch conversation o ids with
    | (.error e, s) => (.error e, s)
    | (.ok fetched, s) => s.finishPass conversation o h ids fetched

/-- The tree of a snapshot: bodies that the outline knows are linked to it. -/
def treeOf (full : Snapshot) : Tree :=
  Tree.ofMessages (full.bodies.map full.outline.link) full.outline.current

/-- The record of a message of a snapshot, under the fingerprint of the outline if that knows the
message. -/
def snapshotRecord (conversation : String) (full : Snapshot) (now : Int64) (m : Message) : Record :=
  ⟨conversation, m, (full.outline.nodes[m.id]?.map Node.fingerprint).getD m.fingerprint, now⟩

/-- Fetches a whole conversation and caches it. -/
def refreshWhole (s : Stores ρ κ) (conversation : String) :
    Except Failure (Tree × Report) × Stores ρ κ :=
  match s.askSnapshot conversation with
  | (.error e, s) => (.error e, s)
  | (.ok full, s) =>
    let tree := treeOf full
    let records := tree.messages.values.map (snapshotRecord conversation full s.clock)
    let (_, s) := s.overwrite conversation records
    (.ok (tree, ⟨.full, full.bodies.length, false, tree.size⟩), s)

/-- Synchronises a conversation: a differential pass, and a full fetch if that fails or the cache has been
given up. -/
def refresh (s : Stores ρ κ) (conversation : String) :
    Except Failure (Tree × Report) × Stores ρ κ :=
  if s.degraded then s.refreshWhole conversation
  else
    match s.refreshChanged conversation with
    | (.ok outcome, s) => (.ok outcome, s)
    | (.error _, s) => s.refreshWhole conversation

end Stores

end DialogueSync.Client
