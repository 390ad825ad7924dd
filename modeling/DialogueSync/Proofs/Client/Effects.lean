import DialogueSync.Proofs.Client.CarryOver
import DialogueSync.Proofs.Client.Inheritance
import DialogueSync.Proofs.Client.Transitions

/-!
# What a step does to the parts of a session

To the tree a step does one of five things (`TreeStep`): it leaves the messages as they are, attaches one,
rewrites one in its place, takes some out, or carries over what is in flight. To the stores it does one of
four (`StoresStep`): it synchronises the conversation, clears the cache, or writes messages of the new tree to
the cache, after which it may save that tree.

An operation `Spares` a message if it is about other messages and does not take it out. The message then keeps
its body unless the conversation is synchronised (`TreeStep.hasBodyOf`), and it stays in flight if it was
(`Step.isActive_eq`).
-/

namespace DialogueSync.Client

open Cache (Record)
open DialogueSync.Tree (Linked Grounded SamePlace isWithin parentIn)
open Message (SameBody)
open Remote (Truthful)
open Stores (CacheSteps Throughout)

variable {P : Message → Prop} {t t' : Tree} {m m' : Message}

/-! ### A property of all messages of a tree -/

namespace Stores.Throughout

lemma congr (h : Throughout P t) (heq : t'.messages = t.messages) : Throughout P t' where
  linked := heq ▸ h.linked
  of_get? id m hm := h.of_get? id m (by rwa [Tree.get?, ← heq])

/-- A message with the property may be inserted. -/
lemma insert (h : Throughout P t) (hsame : ∀ m m', SameBody m m' → P m → P m')
    {parent : Option String} (hinsert : t.insert parent m = .ok t') (hm : P m) : Throughout P t' where
  linked := Tree.linked_insert h.linked hinsert
  of_get? id m' hm' := by
    by_cases hid : id = m.id
    · subst hid
      obtain ⟨placed, hplaced, hbody, -⟩ := Tree.get?_insert_self h.linked hinsert
      obtain rfl := Option.some.inj (hplaced.symm.trans hm')
      exact hsame m placed hbody hm
    · obtain ⟨old, hold, hbody, -⟩ := Tree.get?_insert_of_ne h.linked hinsert hid hm'
      exact hsame old m' hbody (h.of_get? id old hold)

/-- It may take the place of a body. -/
lemma setBody (h : Throughout P t) {old : Message} (hold : t.get? m.id = some old)
    (hplace : SamePlace old m) (hm : P m) : Throughout P (t.setBody m) where
  linked := Tree.linked_setBody hold hplace h.linked
  of_get? id m' hm' := by
    rw [Tree.get?_setBody, Option.map_eq_some_iff] at hm'
    obtain ⟨old', hold', rfl⟩ := hm'
    split
    · exact hm
    · exact h.of_get? id old' hold'

/-- And messages may be removed. -/
lemma remove (h : Throughout P t) (hsame : ∀ m m', SameBody m m' → P m → P m') (id : String) :
    Throughout P (t.remove id) where
  linked := Tree.linked_remove h.linked id
  of_get? x m hm := by
    obtain ⟨old, hold, hbody, -⟩ := Tree.exists_of_get?_remove h.linked hm
    exact hsame old m hbody (h.of_get? x old hold)

/-- What all messages of two trees have, those of a blend have too. -/
lemma blend {opened synced : Tree} (hopened : Throughout P opened) (hsynced : Throughout P synced)
    (hsame : ∀ m m', SameBody m m' → P m → P m') (h : Blend opened synced t) : Throughout P t where
  linked := h.linked
  of_get? id m hm := by
    obtain ⟨src, hbody, hsrc | ⟨hsrc, -⟩⟩ := h.exists_origin id m hm
    · exact hsame src m hbody (hsynced.of_get? id src hsrc)
    · exact hsame src m hbody (hopened.of_get? id src hsrc)

end Stores.Throughout

namespace Session

variable {ρ κ : Type} {s s' : Session ρ κ} {conversation id : String} {op : Operation}

/-! ### Rewriting a message in its place -/

/-- The operation puts a body in the place of one that the session shows. -/
def Rewrites (s : Session ρ κ) (m m' : Message) : Operation → Prop
  | .receive id d => id = m.id ∧ m.done = false ∧
    m' = if d.done then (s.applied m d).completed (d.applyTo m) else d.applyTo m
  | .finish id | .stop id => id = m.id ∧ (m.done = false ∨ s.streams.isActive m.id) ∧ m' = s.completed m
  | .startNew _ | .load _ | .attach .. | .select _ | .noteRequest .. | .delete _ | .recoverCache => False

/-- A message is rewritten in its place. -/
lemma Rewrites.samePlace (h : Rewrites s m m' op) : SamePlace m m' := by
  cases op with
  | receive id d =>
    obtain ⟨-, -, rfl⟩ := h
    split
    · exact ⟨rfl, rfl, rfl⟩
    · exact ⟨rfl, rfl, rfl⟩
  | finish id =>
    obtain ⟨-, -, rfl⟩ := h
    exact ⟨rfl, rfl, rfl⟩
  | stop id =>
    obtain ⟨-, -, rfl⟩ := h
    exact ⟨rfl, rfl, rfl⟩
  | _ => exact h.elim

/-- The operation is about other messages, and does not take the message out. -/
def Spares (id : String) (s : Session ρ κ) : Operation → Prop
  | .attach _ m => m.id ≠ id
  | .receive x _ | .finish x | .stop x => x ≠ id
  | .delete x => ¬ isWithin s.tree.messages id x
  | .startNew _ | .load _ | .select _ | .noteRequest .. | .recoverCache => True

/-- A message that is spared is not rewritten. -/
lemma Rewrites.id_ne (h : Rewrites s m m' op) (hspares : Spares id s op) : m.id ≠ id := by
  cases op with
  | receive x d => exact h.1 ▸ hspares
  | finish x => exact h.1 ▸ hspares
  | stop x => exact h.1 ▸ hspares
  | _ => exact h.elim

/-- What the operation brings in has a property: a message that is attached, or a body that is rewritten. -/
structure Brings (P : Message → Prop) (s : Session ρ κ) (op : Operation) : Prop where
  /-- A message that is attached has the property. -/
  of_attach : ∀ parent m, op = .attach parent m → P m
  /-- A body that is rewritten has the property. -/
  of_rewrites : ∀ m m', s.tree.get? m.id = some m → Rewrites s m m' op → P m'

/-! ### The tree -/

variable [Remote ρ] [Cache κ]

/-- What a step does to the tree. -/
inductive TreeStep (conversation : String) (s : Session ρ κ) : Operation → Tree → Prop where
  /-- The messages stay as they are. -/
  | keep {op : Operation} {t : Tree} (h : t.messages = s.tree.messages) : TreeStep conversation s op t
  /-- A message is attached. -/
  | insert {parent : Option String} {m : Message} {t t' : Tree} (h : s.tree.insert parent m = .ok t)
      (hmessages : t'.messages = t.messages) : TreeStep conversation s (.attach parent m) t'
  /-- A message is rewritten in its place. -/
  | setBody {op : Operation} {m m' : Message} (h : s.tree.get? m.id = some m)
      (hrewrites : Rewrites s m m' op) : TreeStep conversation s op (s.tree.setBody m')
  /-- A message is taken out with everything below it. -/
  | remove (id : String) : TreeStep conversation s (.delete id) (s.tree.remove id)
  /-- What is in flight is carried over into a synchronised tree. -/
  | carry {tree : Tree} {report : Report} {stores : Stores ρ κ}
      (h : s.stores.refresh conversation = (.ok (tree, report), stores)) :
      TreeStep conversation s (.load conversation) (carryInFlight s.tree s.streams tree)

/-- The last increment and the end of the response change one body. -/
lemma tree_last (s : Session ρ κ) (m : Message) (d : Delta) :
    ((s.applied m d).concluded conversation (d.applyTo m)).tree =
      s.tree.setBody ((s.applied m d).completed (d.applyTo m)) := by
  rw [tree_concluded]
  exact Tree.setBody_setBody s.tree rfl

/-- A step does one of these things to the tree. -/
lemma Step.treeStep (h : Step conversation s op s') (hkeyed : IdMap.Keyed Message.id s.tree.messages) :
    TreeStep conversation s op s'.tree := by
  cases h with
  | idle => exact .keep rfl
  | select id => exact .keep (Tree.messages_select s.tree id)
  | noteRequest => exact .keep rfl
  | recoverCache => exact .keep rfl
  | attach hinsert => exact .insert hinsert (Tree.messages_select _ _)
  | @increment id d m hm hdone hd =>
    obtain rfl : m.id = id := hkeyed id m hm
    exact .setBody hm ⟨rfl, hdone, by rw [hd]; rfl⟩
  | @last id d m hm hdone hd =>
    obtain rfl : m.id = id := hkeyed id m hm
    rw [tree_last]
    exact .setBody hm ⟨rfl, hdone, by rw [hd]; rfl⟩
  | @conclude id op hop m hm hwhy =>
    obtain rfl : m.id = id := hkeyed id m hm
    rw [tree_concluded]
    refine .setBody hm ?_
    rcases hop with rfl | rfl
    · exact ⟨rfl, hwhy, rfl⟩
    · exact ⟨rfl, hwhy, rfl⟩
  | @delete id =>
    rw [tree_save]
    exact .remove id
  | reload hrefresh => exact .carry hrefresh
  | fail => exact .keep rfl

namespace TreeStep

variable {t : Tree}

/-- If what is brought in has a property, and what is synchronised, then all messages go on to have it. -/
lemma throughout {P : Message → Prop} (h : TreeStep conversation s op t) (hs : Throughout P s.tree)
    (hsame : ∀ m m', SameBody m m' → P m → P m') (hbrings : Brings P s op)
    (hload : ∀ tree report stores, op = .load conversation →
      s.stores.refresh conversation = (.ok (tree, report), stores) → Throughout P tree) : Throughout P t := by
  cases h with
  | keep h => exact hs.congr h
  | @insert parent m tree _ hinsert hmessages =>
    exact (hs.insert hsame hinsert (hbrings.of_attach parent m rfl)).congr hmessages
  | setBody hm hrewrites =>
    have hplace := hrewrites.samePlace
    refine hs.setBody (hplace.id_eq ▸ hm) hplace ?_
    exact hbrings.of_rewrites _ _ hm hrewrites
  | remove id => exact hs.remove hsame id
  | carry hrefresh =>
    have hsynced := hload _ _ _ rfl hrefresh
    exact hs.blend hsynced hsame (blend_carryInFlight hs.linked hsynced.linked s.streams)

/-- A message stays if it is not taken out, and if it is among what is synchronised. -/
lemma mem (h : TreeStep conversation s op t) (hs : Linked s.tree.messages) (hid : id ∈ s.tree.messages)
    (hdelete : ∀ x, op = .delete x → ¬ isWithin s.tree.messages id x)
    (hload : ∀ tree report stores, op = .load conversation →
      s.stores.refresh conversation = (.ok (tree, report), stores) →
        Linked tree.messages ∧ id ∈ tree.messages) : id ∈ t.messages := by
  cases h with
  | keep h =>
    rw [h]
    exact hid
  | insert hinsert hmessages =>
    rw [hmessages, Tree.mem_insert_iff hs hinsert]
    exact Or.inr hid
  | setBody => exact Tree.mem_setBody_iff.mpr hid
  | remove x =>
    obtain ⟨m, hm⟩ := Tree.mem_iff_exists_get?.mp hid
    obtain ⟨m', hm', -⟩ := Tree.exists_get?_remove hs hm (hdelete x rfl)
    exact Tree.mem_iff_exists_get?.mpr ⟨m', hm'⟩
  | carry hrefresh =>
    obtain ⟨hlinked, hsynced⟩ := hload _ _ _ rfl hrefresh
    exact (blend_carryInFlight hs hlinked s.streams).mem_of_synced id hsynced

/-- Unless something is carried over, the tree stays grounded, and its messages keep their parents, but for a
message that is attached. -/
lemma grounded_or_carry (h : TreeStep conversation s op t) (hs : Grounded s.tree.messages) :
    (Grounded t.messages ∧ ∀ id, id ∈ t.messages → (∀ parent m, op = .attach parent m → id ≠ m.id) →
      id ∈ s.tree.messages ∧ parentIn t.messages id = parentIn s.tree.messages id) ∨
    ∃ tree report stores, s.stores.refresh conversation = (.ok (tree, report), stores) ∧
      t = carryInFlight s.tree s.streams tree := by
  cases h with
  | keep h =>
    rw [h]
    exact Or.inl ⟨hs, fun id hid _ => ⟨hid, rfl⟩⟩
  | @insert parent m tree _ hinsert hmessages =>
    rw [hmessages]
    refine Or.inl ⟨Tree.grounded_insert hs hinsert, fun id hid hne => ?_⟩
    have hne := hne parent m rfl
    rw [Tree.mem_insert_iff hs.toLinked hinsert] at hid
    rw [Tree.parentIn_of_insert hs.toLinked hinsert, if_neg hne]
    exact ⟨hid.resolve_left hne, rfl⟩
  | setBody hm hrewrites =>
    have hplace := hrewrites.samePlace
    have hm' := hplace.id_eq ▸ hm
    refine Or.inl ⟨Tree.grounded_setBody hm' hplace hs, fun id hid _ => ?_⟩
    exact ⟨Tree.mem_setBody_iff.mp hid, Tree.parentIn_setBody hm' hplace id⟩
  | remove x =>
    refine Or.inl ⟨Tree.grounded_remove hs x, fun id hid _ => ?_⟩
    obtain ⟨m, hm⟩ := Tree.mem_iff_exists_get?.mp hid
    obtain ⟨old, hold, -, hparent⟩ := Tree.exists_of_get?_remove hs.toLinked hm
    refine ⟨Tree.mem_iff_exists_get?.mpr ⟨old, hold⟩, ?_⟩
    rw [Tree.parentIn_of_get? hm, Tree.parentIn_of_get? hold, hparent]
  | carry hrefresh => exact Or.inr ⟨_, _, _, hrefresh, rfl⟩

/-- A message that is spared keeps its body, if it has that after a reload. -/
lemma hasBodyOf (h : TreeStep conversation s op t) (hs : Linked s.tree.messages)
    (hm : HasBodyOf s.tree m) (hspares : Spares m.id s op)
    (hload : ∀ tree report stores, op = .load conversation →
      s.stores.refresh conversation = (.ok (tree, report), stores) →
        HasBodyOf (carryInFlight s.tree s.streams tree) m) : HasBodyOf t m := by
  cases h with
  | keep h =>
    unfold HasBodyOf Tree.get? at *
    rwa [h]
  | insert hinsert hmessages =>
    have hinserted := hm.insert hs hinsert hspares
    unfold HasBodyOf Tree.get? at *
    rwa [hmessages]
  | setBody hget hrewrites =>
    have hplace := hrewrites.samePlace
    obtain ⟨old, hold, hsame⟩ := hm
    refine ⟨old, ?_, hsame⟩
    rw [Tree.get?_setBody, hold, Option.map_some, if_neg ?_]
    rw [hplace.id_eq]
    exact (hrewrites.id_ne hspares).symm
  | remove x =>
    obtain ⟨old, hold, hsame⟩ := hm
    obtain ⟨new, hnew, hsame'⟩ := Tree.exists_get?_remove hs hold hspares
    exact ⟨new, hnew, hsame.trans hsame'⟩
  | carry hrefresh => exact hload _ _ _ rfl hrefresh

end TreeStep

/-! ### The responses in flight -/

section Streams

omit [Remote ρ] [Cache κ]

/-- The timing of another response does not count. -/
lemma isActive_insert_of_ne {streams : Streams} {x : String} (h : x ≠ id) (timing : Timing) :
    Streams.isActive (streams.insert x timing) id = streams.isActive id := by
  unfold Streams.isActive
  rw [Std.ExtTreeMap.contains_insert]
  have hne : (compare x id == .eq) = false := by simpa using h
  rw [hne, Bool.false_or]

lemma isActive_erase_of_ne {streams : Streams} {x : String} (h : x ≠ id) :
    Streams.isActive (streams.erase x) id = streams.isActive id := by
  unfold Streams.isActive
  rw [Std.ExtTreeMap.contains_erase]
  have hne : (compare x id != .eq) = true := by simpa using h
  rw [hne, Bool.true_and]

/-- Giving up on other responses leaves a response in flight or not. -/
lemma isActive_foldl_forget {streams : Streams} {ids : List String} (h : id ∉ ids) :
    (ids.foldl Streams.forget streams).isActive id = streams.isActive id := by
  induction ids generalizing streams with
  | nil => rfl
  | cons x rest ih =>
    rw [List.foldl_cons, ih fun hmem => h (List.mem_cons_of_mem x hmem)]
    refine isActive_erase_of_ne fun hx => h ?_
    rw [hx]
    exact List.mem_cons_self

/-- Attaching another message leaves a response in flight or not. -/
lemma isActive_attached_of_ne (s : Session ρ κ) (tree : Tree) (h : m.id ≠ id) :
    (s.attached tree m).streams.isActive id = s.streams.isActive id := by
  unfold attached
  dsimp only
  split
  · rfl
  · exact isActive_insert_of_ne h _

end Streams

/-- A response that is spared stays in flight or not, unless it is noted that it was requested. -/
lemma Step.isActive_eq (h : Step conversation s op s') (hlinked : Linked s.tree.messages)
    (hspares : Spares id s op) (hnote : ∀ sentAt, op ≠ .noteRequest id sentAt) :
    s'.streams.isActive id = s.streams.isActive id := by
  cases h with
  | noteRequest x sentAt =>
    refine isActive_insert_of_ne (fun hx => ?_) _
    rw [hx] at hnote
    exact hnote sentAt rfl
  | @attach parent m tree hinsert => exact isActive_attached_of_ne s tree hspares
  | increment hget =>
    refine isActive_insert_of_ne ?_ _
    exact hlinked.keyed _ _ hget ▸ hspares
  | @last x d m hget =>
    have hne : m.id ≠ id := hlinked.keyed _ _ hget ▸ hspares
    rw [streams_concluded]
    exact (isActive_erase_of_ne hne).trans (isActive_insert_of_ne hne _)
  | conclude hwhich hget =>
    rw [streams_concluded]
    refine isActive_erase_of_ne ?_
    rcases hwhich with rfl | rfl
    · exact hlinked.keyed _ _ hget ▸ hspares
    · exact hlinked.keyed _ _ hget ▸ hspares
  | @delete x hmem =>
    rw [streams_save]
    refine isActive_foldl_forget fun hid => hspares ?_
    obtain ⟨m, hm, rfl⟩ := List.mem_map.mp hid
    exact ((Tree.mem_subtree_iff hlinked hmem).mp hm).2
  | _ => rfl

/-! ### The stores -/

/-- The records are of messages that the session shows. -/
def OfShown (conversation : String) (s : Session ρ κ) (records : List Record) : Prop :=
  ∀ r ∈ records, ∃ (id : String) (m : Message) (now : Int64),
    s.tree.get? id = some m ∧ r = Record.own conversation m now

/-- What a step does to the stores. -/
inductive StoresStep (conversation : String) (stores : Stores ρ κ) (s' : Session ρ κ) : Prop where
  /-- The conversation is synchronised. -/
  | syncs (h : s'.stores = (stores.refresh conversation).2)
  /-- The cache is cleared. -/
  | clears (degraded : Bool) (h : s'.stores = { stores.callClear.2 with degraded := degraded })
  /-- Messages are cached. -/
  | caches (h : CacheSteps conversation (OfShown conversation s') stores s'.stores)
  /-- Messages are cached, and then the conversation is saved as it is shown. -/
  | saves (cached : Stores ρ κ) (h : CacheSteps conversation (OfShown conversation s') stores cached)
      (hsave : s'.stores = (cached.save conversation s'.saveRequest).2)

/-- Making a response complete caches it, and then saves the conversation as it is then. -/
lemma storesStep_concluded (hm : s.tree.get? m.id = some m) :
    StoresStep conversation s.stores (s.concluded conversation m) := by
  refine .saves (s.stores.store [s.recordOf conversation (s.completed m)]).2
    ((CacheSteps.refl s.stores).store fun r hr => ?_) ?_
  · rw [List.mem_singleton.mp hr]
    refine ⟨m.id, s.completed m, s.stores.clock, ?_, rfl⟩
    rw [tree_concluded]
    exact Tree.get?_setBody_self (m := s.completed m) hm
  · rw [stores_concluded, concluded, saveRequest_save, saveRequest_cacheAll]

/-- A step does one of these things to the stores. -/
lemma Step.storesStep (h : Step conversation s op s') (hkeyed : IdMap.Keyed Message.id s.tree.messages) :
    StoresStep conversation s.stores s' := by
  have hget : ∀ {id m}, s.tree.get? id = some m → s.tree.get? m.id = some m := by
    intro id m hm
    rwa [hkeyed id m hm]
  cases h with
  | recoverCache =>
    obtain ⟨degraded, hstores⟩ := stores_recoverCache s
    exact .clears degraded hstores
  | @attach parent m tree hinsert =>
    refine .caches ((CacheSteps.refl s.stores).store fun r hr => ?_)
    obtain ⟨x, m', hm', rfl⟩ := exists_of_mem_attachedRecords hr
    exact ⟨x, m', _, hm', rfl⟩
  | @last id d m hm =>
    have hself : s.tree.get? m.id = some m := hget hm
    exact storesStep_concluded (s := s.applied m d) (Tree.get?_setBody_self (m := d.applyTo m) hself)
  | conclude hop hm => exact storesStep_concluded (hget hm)
  | @delete id =>
    refine .saves (s.cleared conversation id).stores
      ((CacheSteps.refl s.stores).overwrite fun r hr => ?_) ?_
    · obtain ⟨m, hm, rfl⟩ := List.mem_map.mp hr
      obtain ⟨x, hx⟩ := mem_values_iff.mp hm
      refine ⟨x, m, s.stores.clock, ?_, rfl⟩
      rw [tree_save]
      exact hx
    · rw [stores_save, saveRequest_save]
      rfl
  | reload hrefresh => exact .syncs (by rw [hrefresh]; rfl)
  | fail hrefresh => exact .syncs (by rw [hrefresh])
  | _ => exact .caches (CacheSteps.refl s.stores)

/-- A step stays with the conversation. -/
lemma Step.conversation_eq (h : Step conversation s op s') : s'.conversation = s.conversation := by
  cases h with
  | last => exact conversation_concluded _ _ _
  | conclude => exact conversation_concluded _ _ _
  | delete => exact conversation_save _ _
  | _ => rfl

/-- A truthful remote store holds after a step what it has held, or the tree that is shown then. -/
lemma StoresStep.held_cases {holds : ρ → Prop} {held : ρ → Option Tree}
    (h : StoresStep conversation s.stores s') (truth : Truthful holds held conversation)
    (hs : holds s.stores.remote) :
    holds s'.stores.remote ∧ (held s'.stores.remote = held s.stores.remote ∨
      held s'.stores.remote = some (Tree.ofHistory s'.tree.toHistory)) := by
  cases h with
  | syncs h =>
    rw [h]
    obtain ⟨hholds, hheld⟩ := (Stores.syncSteps_refresh s.stores conversation).held_eq truth hs
    exact ⟨hholds, Or.inl hheld⟩
  | clears degraded h =>
    rw [h]
    exact ⟨hs, Or.inl rfl⟩
  | caches h =>
    rw [h.remote_eq]
    exact ⟨hs, Or.inl rfl⟩
  | saves cached h hsave =>
    obtain ⟨hholds, hheld⟩ := truth.save cached.remote s'.saveRequest (h.remote_eq ▸ hs)
    rw [h.remote_eq] at hheld
    have hremote : s'.stores.remote = (Remote.save conversation s'.saveRequest s.stores.remote).2 := by
      rw [hsave, ← h.remote_eq]
      rfl
    rw [hremote]
    exact ⟨h.remote_eq ▸ hholds, hheld.symm.imp_left And.right⟩

end Session

end DialogueSync.Client
