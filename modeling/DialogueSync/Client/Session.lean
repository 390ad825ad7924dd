import DialogueSync.Client.Sync
import DialogueSync.Stream.Basic
import DialogueSync.Tree.Edit

/-!
# Sessions

A session shows one conversation at a time: its tree, the responses in flight, and notices for the user.
Every change of the tree raises the revision. Messages are cached as they are inserted; a response is
cached and saved once, when it is complete; and a reload carries over what is still in flight.
-/

namespace DialogueSync.Client

open Cache (Record)

/-- What the user has chosen, which goes along with every save. -/
structure Settings where
  /-- The models in use. -/
  models : List String := []
  /-- Free settings. -/
  params : Json := .null
  /-- Free descriptions of attached files. -/
  files : List Json := []
  /-- The prices of the models. -/
  pricing : IdMap Pricing := ∅

/-- A session on a remote store and a local cache. -/
structure Session (ρ κ : Type) where
  /-- The two stores. -/
  stores : Stores ρ κ
  /-- What the user has chosen. -/
  settings : Settings := {}
  /-- The open conversation. -/
  conversation : Option String := none
  /-- The tree of the open conversation. -/
  tree : Tree := {}
  /-- The responses in flight. -/
  streams : Streams := ∅
  /-- What the last successful synchronising did. -/
  report : Option Report := none
  /-- Notices that the user has not seen yet, earliest first. -/
  notices : List String := []
  /-- How often the tree has changed. Every operation counts at most once, so that up to `2 ^ 64` operations a
  counter of 64 bits is as good. -/
  revision : Nat := 0

/-! ### Messages in flight -/

/-- Carries the messages on the way to a response in flight over into a synchronised tree: the response
itself, and those that the tree lacks. One that cannot be placed is left out. -/
def carryOver (synced : Tree) (id : String) (way : List Message) : Tree :=
  way.foldl (fun t m =>
    if m.id = id || !t.contains m.id then (t.place m).toOption.getD t else t) synced

/-- Carries every response in flight over into a synchronised tree, unless the tree has it complete. -/
def carryInFlight (opened : Tree) (streams : Streams) (synced : Tree) : Tree :=
  streams.active.foldl (fun t id =>
    if (t.get? id).any Message.done then t else carryOver t id (opened.path id)) synced

namespace Session

variable {ρ κ : Type}

/-! ### Small steps -/

/-- Raises the revision. -/
def notify (s : Session ρ κ) : Session ρ κ :=
  { s with revision := s.revision + 1 }

/-- Queues a notice for the user. -/
def addNotice (s : Session ρ κ) (text : String) : Session ρ κ :=
  { s with notices := s.notices ++ [text] }

/-- Hands out the notices that the user has not seen yet. -/
def drainNotices (s : Session ρ κ) : List String × Session ρ κ :=
  (s.notices, { s with notices := [] })

/-- Opens a conversation with a tree and nothing in flight. -/
def openWith (s : Session ρ κ) (conversation : String) (tree : Tree) (report : Option Report) :
    Session ρ κ :=
  { s with conversation := some conversation, tree := tree, streams := ∅, report := report }.notify

/-- Opens a new conversation without asking the remote store. -/
def startNew (s : Session ρ κ) (conversation : String) : Session ρ κ :=
  s.openWith conversation {} none

/-- Selects the branch through a message. -/
def select (s : Session ρ κ) (id : String) : Session ρ κ :=
  { s with tree := s.tree.select id }.notify

/-- Notes that the request for a response was sent. -/
def noteRequest (s : Session ρ κ) (id : String) (sentAt : Int64) : Session ρ κ :=
  { s with streams := s.streams.start id sentAt }

/-- The record of a message of an open conversation. -/
def recordOf (s : Session ρ κ) (conversation : String) (m : Message) : Record :=
  Record.own conversation m s.stores.clock

/-- Whether the session would have to change conversations to show this one. -/
def isElsewhere (s : Session ρ κ) (conversation : String) : Bool :=
  s.conversation ≠ some conversation

section Cache

variable [Cache κ]

/-- Writes records to the cache. -/
def cacheAll (s : Session ρ κ) (records : List Record) : Session ρ κ :=
  { s with stores := (s.stores.store records).2 }

/-- Clears the cache, after which it is used again, and tells whether that was done. -/
def recoverCache (s : Session ρ κ) : Bool × Session ρ κ :=
  let (done, stores) := s.stores.recover
  (done, { s with stores := stores })

/-- Opens a conversation from the cache alone. -/
def openOffline (s : Session ρ κ) (conversation : String) : Session ρ κ :=
  let (records, stores) := s.stores.cachedRecords conversation
  let tree := Tree.ofMessages ((records.getD []).map Record.message) none
  { s with stores := stores }.openWith conversation tree none

/-- The records that inserting a message writes: the parent as it is now, and the message. -/
def attachedRecords (s : Session ρ κ) (conversation id : String) : List Record :=
  match s.tree.get? id with
  | none => []
  | some m => (((m.parent.bind s.tree.get?).toList) ++ [m]).map (s.recordOf conversation)

/-- Attaches a message, selects it and caches it together with its parent. An incomplete message counts
as a response in flight from now on. -/
def attach (s : Session ρ κ) (parent : Option String) (m : Message) :
    Except Failure Unit × Session ρ κ :=
  match s.conversation with
  | none => (.error .noConversation, s)
  | some conversation =>
    match s.tree.insert parent m with
    | .error e => (.error e, s)
    | .ok tree =>
      let streams :=
        if m.done || s.streams.isActive m.id then s.streams
        else s.streams.start m.id s.stores.clock
      let s := { s with tree := tree.select m.id, streams := streams }
      (.ok (), (s.cacheAll (s.attachedRecords conversation m.id)).notify)

end Cache

/-- The request that saves the session as it is. -/
def saveRequest (s : Session ρ κ) : SaveRequest where
  models := s.settings.models
  params := s.settings.params
  history := s.tree.toHistory
  files := s.settings.files

section Remote

variable [Remote ρ]

/-- Saves the conversation; a failure becomes a notice. -/
def save (s : Session ρ κ) (conversation : String) : Session ρ κ :=
  let (reply, stores) := s.stores.save conversation s.saveRequest
  let s := { s with stores := stores }
  match reply with
  | .ok () => s
  | .error e => s.addNotice ("Could not save conversation: " ++ e.message)

variable [Cache κ]

/-- Synchronises a conversation and shows it. If that fails, a notice is queued; the open conversation
then stays as it is, and another one is opened from the cache. -/
def load (s : Session ρ κ) (conversation : String) : Session ρ κ :=
  let (outcome, stores) := s.stores.refresh conversation
  let s := { s with stores := stores }
  match outcome with
  | .ok (tree, report) =>
    if s.isElsewhere conversation then s.openWith conversation tree (some report)
    else
      { s with
        tree := carryInFlight s.tree s.streams tree
        report := some report }.notify
  | .error e =>
    let s := s.addNotice ("Could not refresh conversation: " ++ e.message)
    if s.isElsewhere conversation then s.openOffline conversation else s

/-- The price of the model that wrote a message. -/
def pricingOf (s : Session ρ κ) (m : Message) : Option Pricing :=
  m.model.bind fun model => s.settings.pricing[model]?

/-- Makes a response complete, caches it and saves the conversation. Nothing happens to a message that
is complete already and not in flight. -/
def finish (s : Session ρ κ) (id : String) : Except Failure Unit × Session ρ κ :=
  match s.conversation with
  | none => (.error .noConversation, s)
  | some conversation =>
    match s.tree.get? id with
    | none => (.error (.unknownMessage id), s)
    | some m =>
      match s.streams.finish m (s.pricingOf m) s.stores.clock with
      | (false, _, _) => (.ok (), s)
      | (true, m, streams) =>
        let s := { s with tree := s.tree.setBody m, streams := streams }.notify
        (.ok (), (s.cacheAll [s.recordOf conversation m]).save conversation)

/-- Stops a response at the user's wish, keeping what has come. -/
def stop (s : Session ρ κ) (id : String) : Except Failure Unit × Session ρ κ :=
  s.finish id

/-- Applies an increment of a response; the last one makes the response complete. -/
def receive (s : Session ρ κ) (id : String) (d : Delta) : Except Failure Outcome × Session ρ κ :=
  match s.tree.get? id with
  | none => (.error (.unknownMessage id), s)
  | some m =>
    let (outcome, m, streams) := s.streams.apply m d s.stores.clock
    let applied := { s with tree := s.tree.setBody m, streams := streams }
    match outcome with
    | .ignored => (.ok .ignored, s)
    | .applied => (.ok .applied, applied.notify)
    | .finished =>
      let (result, s) := applied.finish id
      (result.map fun () => .finished, s)

/-- Takes out a message with everything below it, and saves the conversation. -/
def delete (s : Session ρ κ) (id : String) : Except Failure Unit × Session ρ κ :=
  match s.conversation with
  | none => (.error .noConversation, s)
  | some conversation =>
    if s.tree.contains id then
      let removed := (s.tree.subtree id).map Message.id
      let s := { s with tree := s.tree.remove id, streams := removed.foldl Streams.forget s.streams }
      let records := s.tree.messages.values.map (s.recordOf conversation)
      let s := { s with stores := (s.stores.overwrite conversation records).2 }
      (.ok (), s.notify.save conversation)
    else (.error (.unknownMessage id), s)

end Remote

end Session

end DialogueSync.Client
