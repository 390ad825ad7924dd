import DialogueSync.Proofs.Client.Repetition
import DialogueSync.Proofs.Client.Unlimited
import DialogueSync.Proofs.Remote.Reliable

/-!
# Writing through to the cache

While a conversation is edited, the cache `Mirrors` its tree: there is one record of every message, and that of a
complete message has its body and its fingerprint. A response in flight may have an older copy there, since its
increments are not cached. Every edit keeps this, and every edit that saves leaves the remote store with the tree
that is shown (`Coherent.step`).

So once all messages are complete and the conversation was just saved, a pass over it finds everything current and
only reads (`Pass.end_eq_of_upToDate`). Loading the conversation then shows what was shown before
(`load_after_saving`).
-/

namespace DialogueSync

open Message (SameBody)

variable {t : Tree}

/-- A well-formed tree stays so when the body of a message is changed in its place. -/
lemma Tree.wellFormed_setBody (h : t.WellFormed) {old m : Message} (hold : t.get? m.id = some old)
    (hplace : Tree.SamePlace old m) : (t.setBody m).WellFormed where
  toLinked := Tree.linked_setBody hold hplace h.toLinked
  mem_of_current id hid := Tree.mem_setBody_iff.mpr (h.mem_of_current id hid)
  eq_empty_of_current hnone := by
    have hmem : m.id ∈ t.messages := Tree.mem_iff_exists_get?.mpr ⟨old, hold⟩
    rw [h.eq_empty_of_current hnone] at hmem
    exact absurd hmem Std.ExtTreeMap.not_mem_empty

/-- A well-formed tree stays so when a message is taken out. -/
lemma Tree.wellFormed_remove (h : t.WellFormed) (id : String) : (t.remove id).WellFormed := by
  by_cases hid : id ∈ t.messages
  · rw [Tree.remove_of_mem h.toLinked hid]
    exact Tree.wellFormed_repair (Tree.linked_without h.toLinked id)
  · rwa [Tree.remove_of_not_mem hid]

namespace Client

open Cache (Key Memory Record)
open Remote (Honest Reliable)
open Stores (CacheSteps Noted Pass)

variable {ρ : Type} {conversation : String}

/-! ### Mirrors -/

/-- There is one record of every message of the tree and of no other of the conversation. It is under the
fingerprint of its own message, and if the message of the tree is complete it has its body. -/
structure Mirrors (k : Memory) (conversation : String) (t : Tree) : Prop where
  /-- The records are those of the messages of the tree. -/
  mem_iff : ∀ id, (⟨conversation, id⟩ : Key) ∈ k.records ↔ t.contains id
  /-- A record is under the fingerprint of its message. -/
  fingerprint_eq : ∀ id r, k.records[(⟨conversation, id⟩ : Key)]? = some r →
    r.fingerprint = r.message.fingerprint
  /-- The record of a complete message has its body. -/
  sameBody : ∀ id r m, k.records[(⟨conversation, id⟩ : Key)]? = some r → t.get? id = some m →
    m.done = true → SameBody r.message m

namespace Mirrors

variable {k : Memory} {t' : Tree}

/-- Without records the empty tree is mirrored. -/
lemma empty (h : k.recordsOf conversation = []) : Mirrors k conversation {} := by
  have hnone : ∀ id r, k.records[(⟨conversation, id⟩ : Key)]? ≠ some r := by
    intro id r hr
    have hmem : r ∈ k.recordsOf conversation := Memory.mem_recordsOf_iff.mpr ⟨id, hr⟩
    rw [h] at hmem
    cases hmem
  refine ⟨fun id => ?_, fun id r hr => absurd hr (hnone id r), fun id r m hr => absurd hr (hnone id r)⟩
  refine iff_of_false (fun hkey => ?_) fun hid => ?_
  · obtain ⟨r, hr⟩ := mem_iff_exists_getElem?.mp hkey
    exact hnone id r hr
  · exact Std.ExtTreeMap.not_mem_empty (Std.ExtTreeMap.contains_iff_mem.mp hid)

lemma congr (h : Mirrors k conversation t) (heq : t'.messages = t.messages) :
    Mirrors k conversation t' := by
  refine ⟨fun id => ?_, h.fingerprint_eq, fun id r m hr hm => ?_⟩
  · rw [Tree.contains, heq]
    exact h.mem_iff id
  · rw [Tree.get?, heq] at hm
    exact h.sameBody id r m hr hm

/-- A tree is mirrored once messages of it are written, if each of its other messages was mirrored before and
has its old body or is not complete. -/
lemma written (h : Mirrors k conversation t) {batch : List Record}
    (hbatch : ∀ r ∈ batch, ∃ m now, t'.get? m.id = some m ∧ r = Record.own conversation m now)
    (hstay : ∀ id, t.contains id → t'.contains id)
    (hold : ∀ id m', t'.get? id = some m' → (∀ r ∈ batch, r.id ≠ id) →
      t.contains id ∧ (m'.done = true → ∃ m, t.get? id = some m ∧ SameBody m m')) :
    Mirrors (k.written batch) conversation t' := by
  have hkey : ∀ r ∈ batch, r.key = ⟨conversation, r.id⟩ := by
    intro r hr
    obtain ⟨m, now, -, rfl⟩ := hbatch r hr
    rfl
  -- Each record is of the batch, or was there before and is of another message than those of the batch.
  refine ⟨fun id => ?_, fun id r hr => ?_, fun id r m' hr hm' hdone => ?_⟩
  · rw [Memory.written, Memory.mem_insertAll_iff, h.mem_iff]
    constructor
    · rintro (⟨r, hr, hrkey⟩ | hid)
      · obtain ⟨m, now, hm, rfl⟩ := hbatch r hr
        obtain rfl : m.id = id := congrArg Key.id hrkey
        exact Tree.contains_iff_exists_get?.mpr ⟨m, hm⟩
      · exact hstay id hid
    · intro hid
      obtain ⟨m', hm'⟩ := Tree.contains_iff_exists_get?.mp hid
      by_cases hmem : ∃ r ∈ batch, r.id = id
      · obtain ⟨r, hr, rfl⟩ := hmem
        exact Or.inl ⟨r, hr, hkey r hr⟩
      · have hnot : ∀ r ∈ batch, r.id ≠ id := fun r hr hrid => hmem ⟨r, hr, hrid⟩
        exact Or.inr (hold id m' hm' hnot).1
  · rcases Memory.mem_or_of_getElem?_insertAll hr with ⟨hmem, -⟩ | ⟨-, hr⟩
    · obtain ⟨m, now, -, rfl⟩ := hbatch r hmem
      rfl
    · exact h.fingerprint_eq id r hr
  · rcases Memory.mem_or_of_getElem?_insertAll hr with ⟨hmem, hrkey⟩ | ⟨hnot, hr⟩
    · obtain ⟨m, now, hm, rfl⟩ := hbatch r hmem
      obtain rfl : m.id = id := congrArg Key.id hrkey
      obtain rfl := Option.some.inj (hm.symm.trans hm')
      exact SameBody.refl m
    · have hne : ∀ r ∈ batch, r.id ≠ id := by
        rintro r' hr' rfl
        exact hnot r' hr' (hkey r' hr')
      obtain ⟨m, hm, hsame⟩ := (hold id m' hm' hne).2 hdone
      exact (h.sameBody id r m hr hm (hsame.done_eq.trans hdone)).trans hsame

/-- A tree is mirrored once its messages are put in the place of what was there. -/
lemma replaced (k : Memory) (ht : IdMap.Keyed Message.id t.messages) (now : Int64) :
    Mirrors ((k.drop conversation).written
      (t.messages.values.map fun m => Record.own conversation m now)) conversation t := by
  have hkey : ∀ m : Message, (Record.own conversation m now).key = ⟨conversation, m.id⟩ := fun _ => rfl
  have hget := fun id => Memory.getElem?_replaced ht hkey k id
  refine ⟨fun id => ?_, fun id r hr => ?_, fun id r m hr hm _ => ?_⟩
  · rw [Std.ExtTreeMap.mem_iff_isSome_getElem?, hget, Option.isSome_map, Tree.contains,
      Std.ExtTreeMap.contains_iff_mem, Std.ExtTreeMap.mem_iff_isSome_getElem?]
  · rw [hget, Option.map_eq_some_iff] at hr
    obtain ⟨m, -, rfl⟩ := hr
    rfl
  · rw [hget, show t.messages[id]? = some m from hm] at hr
    obtain rfl := Option.some.inj hr
    exact SameBody.refl m

end Mirrors

/-! ### Edits -/

namespace Session

variable {s s' : Session ρ Memory} {op : Operation} {m : Message}

/-- The operation changes the open conversation, or what is known about its responses. -/
def Edits : Operation → Prop
  | .attach .. | .select _ | .noteRequest .. | .receive .. | .finish _ | .stop _ | .delete _ => True
  | .startNew _ | .load _ | .recoverCache => False

/-- No edit opens another conversation. -/
lemma Edits.remains (h : Edits op) (conversation : String) : Remains conversation op := by
  cases op with
  | startNew => exact h
  | load => exact h.elim
  | _ => trivial

/-- The conversation is open with a well-formed tree, which the cache mirrors. -/
structure Coherent (holds : ρ → Prop) (conversation : String) (s : Session ρ Memory) : Prop where
  /-- The remote store is in a state in which it is reliable. -/
  holds_remote : holds s.stores.remote
  /-- The conversation is open. -/
  open_eq : s.conversation = some conversation
  /-- The tree is well-formed. -/
  wellFormed : s.tree.WellFormed
  /-- The cache is in use and without a limit. -/
  unlimited : s.stores.Unlimited
  /-- The cache mirrors the tree. -/
  mirrors : Mirrors s.stores.cache conversation s.tree

namespace Coherent

variable {holds : ρ → Prop} {held : ρ → Option Tree}

lemma atTime (h : Coherent holds conversation s) (now : Int64) :
    Coherent holds conversation (s.atTime now) :=
  ⟨h.holds_remote, h.open_eq, h.wellFormed, h.unlimited.congr rfl rfl, h.mirrors⟩

/-- A session that opens a conversation of which nothing is cached. -/
lemma startNew (hholds : holds s.stores.remote) (hs : s.stores.Unlimited)
    (hnew : s.stores.cache.recordsOf conversation = []) :
    Coherent holds conversation (s.startNew conversation) where
  holds_remote := hholds
  open_eq := rfl
  wellFormed := ⟨Tree.grounded_empty.toLinked, nofun, fun _ => rfl⟩
  unlimited := hs
  mirrors := Mirrors.empty hnew

/-- An increment is applied without anything being cached. -/
lemma applied (h : Coherent holds conversation s) (hm : s.tree.get? m.id = some m)
    (hopen : m.done = false) (d : Delta) : Coherent holds conversation (s.applied m d) where
  holds_remote := h.holds_remote
  open_eq := h.open_eq
  wellFormed := Tree.wellFormed_setBody (m := d.applyTo m) h.wellFormed hm ⟨rfl, rfl, rfl⟩
  unlimited := h.unlimited
  mirrors := by
    rw [← Memory.written_nil (s.applied m d).stores.cache]
    refine h.mirrors.written (by simp) (fun id hid => Tree.mem_setBody_iff.mpr hid) fun id m' hm' _ => ?_
    change (s.tree.setBody (d.applyTo m)).get? id = some m' at hm'
    rw [Tree.get?_setBody, Option.map_eq_some_iff] at hm'
    obtain ⟨old, hold, rfl⟩ := hm'
    refine ⟨Tree.contains_iff_exists_get?.mpr ⟨old, hold⟩, fun hdone => ?_⟩
    split at hdone
    · exact absurd (hopen.symm.trans hdone) Bool.false_ne_true
    next hne =>
      rw [if_neg hne]
      exact ⟨old, hold, SameBody.refl old⟩

/-- A message that is attached is cached, together with its parent. -/
lemma attached (h : Coherent holds conversation s) {parent : Option String} {tree : Tree}
    (hinsert : s.tree.insert parent m = .ok tree) :
    Coherent holds conversation ((s.attached tree m).cacheAll
      ((s.attached tree m).attachedRecords conversation m.id)).notify := by
  have hlinked := Tree.linked_insert h.wellFormed.toLinked hinsert
  have hmessages : (s.attached tree m).tree.messages = tree.messages := Tree.messages_select tree m.id
  have hget := s.get?_attached tree m
  let batch := (s.attached tree m).attachedRecords conversation m.id
  have hmirrors : Mirrors (s.stores.cache.written batch) conversation tree := by
    refine h.mirrors.written (fun r hr => ?_) (fun id hid => ?_) fun id m' hm' hnot => ?_
    · obtain ⟨x, m', hm', rfl⟩ := exists_of_mem_attachedRecords hr
      rw [hget] at hm'
      rw [← hlinked.keyed x m' hm'] at hm'
      exact ⟨m', s.stores.clock, hm', rfl⟩
    · exact (Tree.mem_insert_iff h.wellFormed.toLinked hinsert).mpr (Or.inr hid)
    · have hne : id ≠ m.id := by
        rintro rfl
        have hself := recordOf_mem_attachedRecords ((hget m.id).trans hm') conversation
        exact hnot _ hself (hlinked.keyed m.id m' hm')
      obtain ⟨old, hold, hsame, -⟩ :=
        Tree.get?_insert_of_ne h.wellFormed.toLinked hinsert hne hm'
      exact ⟨Tree.contains_iff_exists_get?.mpr ⟨old, hold⟩, fun _ => ⟨old, hold, hsame⟩⟩
  obtain ⟨hcache, -⟩ := h.unlimited.cache_store batch
  refine ⟨?_, h.open_eq, Tree.wellFormed_select hlinked m.id, h.unlimited.store batch, ?_⟩
  · change holds (s.stores.store batch).2.remote
    rw [Stores.remote_store]
    exact h.holds_remote
  · change Mirrors (s.stores.store batch).2.cache conversation _
    rw [hcache]
    exact hmirrors.congr hmessages

variable [Remote ρ] (reliable : Reliable holds held conversation)
include reliable

/-- Saving leaves everything as it is but the remote store, which holds the tree that is shown from then on. -/
lemma save (h : Coherent holds conversation s) :
    Coherent holds conversation (s.save conversation) ∧
      held (s.save conversation).stores.remote = some (Tree.ofHistory s.tree.toHistory) := by
  obtain ⟨a, hsave, ha, hheld⟩ := reliable.save s.stores.remote s.saveRequest h.holds_remote
  have hremote : (s.save conversation).stores.remote = a := by
    rw [stores_save]
    change (Remote.save conversation s.saveRequest s.stores.remote).2 = a
    rw [hsave]
  refine ⟨⟨hremote ▸ ha, ?_, ?_, ?_, ?_⟩, hremote ▸ hheld⟩
  · rw [conversation_save]
    exact h.open_eq
  · rw [tree_save]
    exact h.wellFormed
  · rw [stores_save]
    exact h.unlimited.congr rfl rfl
  · rw [stores_save, tree_save]
    exact h.mirrors

omit [Remote ρ] reliable in
/-- A response that is made complete is cached as it is then. -/
lemma settled (h : Coherent holds conversation s) (hm : s.tree.get? m.id = some m) :
    Coherent holds conversation
      ((s.settled m).cacheAll [s.recordOf conversation (s.completed m)]) := by
  have hself : (s.tree.setBody (s.completed m)).get? (s.completed m).id = some (s.completed m) :=
    Tree.get?_setBody_self (m := s.completed m) hm
  have hmirrors : Mirrors (s.stores.cache.written [s.recordOf conversation (s.completed m)])
      conversation (s.tree.setBody (s.completed m)) := by
    refine h.mirrors.written (fun r hr => ?_) (fun id hid => Tree.mem_setBody_iff.mpr hid)
      fun id m' hm' hnot => ?_
    · exact ⟨s.completed m, s.stores.clock, hself, List.mem_singleton.mp hr⟩
    · have hne : id ≠ (s.completed m).id := fun heq => hnot _ (List.mem_singleton_self _) heq.symm
      rw [Tree.get?_setBody, Option.map_eq_some_iff] at hm'
      obtain ⟨old, hold, rfl⟩ := hm'
      rw [if_neg hne]
      exact ⟨Tree.contains_iff_exists_get?.mpr ⟨old, hold⟩, fun _ => ⟨old, hold, SameBody.refl old⟩⟩
  obtain ⟨hcache, -⟩ := h.unlimited.cache_store [s.recordOf conversation (s.completed m)]
  refine ⟨?_, h.open_eq, Tree.wellFormed_setBody (m := s.completed m) h.wellFormed hm ⟨rfl, rfl, rfl⟩,
    h.unlimited.store _, ?_⟩
  · change holds (s.stores.store _).2.remote
    rw [Stores.remote_store]
    exact h.holds_remote
  · change Mirrors (s.stores.store _).2.cache conversation _
    rw [hcache]
    exact hmirrors

omit [Remote ρ] reliable in
/-- When a message is taken out, what is left is cached in the place of what was there. -/
lemma cleared (h : Coherent holds conversation s) (id : String) :
    Coherent holds conversation (s.cleared conversation id).notify := by
  have hwell := Tree.wellFormed_remove h.wellFormed id
  refine ⟨?_, h.open_eq, hwell, h.unlimited.overwrite conversation _, ?_⟩
  · change holds (s.stores.overwrite conversation _).2.remote
    rw [Stores.remote_overwrite]
    exact h.holds_remote
  · change Mirrors (s.stores.overwrite conversation _).2.cache conversation _
    rw [h.unlimited.cache_overwrite]
    exact Mirrors.replaced s.stores.cache hwell.keyed s.stores.clock

omit [Remote ρ] reliable in
/-- Calls on the cache save nothing. -/
lemma not_noted_save {stores stores' : Stores ρ Memory} {batch : List Record → Prop}
    (h : CacheSteps conversation batch stores stores') (request : SaveRequest)
    (reply : Except Failure Unit) : ¬ Noted stores stores' (.save conversation request reply) := by
  intro hnoted
  obtain ⟨made, hmade, honly⟩ := h.exists_calls
  exact honly _ (hnoted.mem hmade)

/-- Every edit keeps a session coherent. If it saves, the remote store holds the tree that is shown. -/
theorem step (h : Coherent holds conversation s) (hstep : Step conversation s op s')
    (hop : Edits op) :
    Coherent holds conversation s' ∧
      ∀ request reply, Noted s.stores s'.stores (.save conversation request reply) →
        held s'.stores.remote = some (Tree.ofHistory s'.tree.toHistory) := by
  have hget : ∀ {id m}, s.tree.get? id = some m → s.tree.get? m.id = some m := by
    intro id m hm
    rwa [h.wellFormed.keyed id m hm]
  -- An operation that only works on the cache saves nothing.
  have hcaches : ∀ {s' : Session ρ Memory}, Coherent holds conversation s' →
      CacheSteps conversation (fun _ => True) s.stores s'.stores →
      Coherent holds conversation s' ∧
        ∀ request reply, Noted s.stores s'.stores (.save conversation request reply) →
          held s'.stores.remote = some (Tree.ofHistory s'.tree.toHistory) :=
    fun h' hsteps => ⟨h', fun request reply hnoted =>
      absurd hnoted (not_noted_save hsteps request reply)⟩
  have hsaves : ∀ {t : Session ρ Memory}, Coherent holds conversation t →
      Coherent holds conversation (t.save conversation) ∧
        ∀ request reply, Noted s.stores (t.save conversation).stores (.save conversation request reply) →
          held (t.save conversation).stores.remote =
            some (Tree.ofHistory (t.save conversation).tree.toHistory) := by
    intro t ht
    obtain ⟨hsaved, hheld⟩ := ht.save reliable
    rw [tree_save]
    exact ⟨hsaved, fun _ _ _ => hheld⟩
  cases hstep with
  | idle => exact hcaches h (.refl _)
  | select id =>
    have hwell := Tree.wellFormed_select h.wellFormed.toLinked id
    exact hcaches ⟨h.holds_remote, h.open_eq, hwell, h.unlimited,
      h.mirrors.congr (Tree.messages_select s.tree id)⟩ (.refl _)
  | noteRequest =>
    exact hcaches ⟨h.holds_remote, h.open_eq, h.wellFormed, h.unlimited, h.mirrors⟩ (.refl _)
  | attach hinsert => exact hcaches (h.attached hinsert) ((CacheSteps.refl s.stores).store trivial)
  | @increment id d m hm hopen hd =>
    have happlied := h.applied (hget hm) hopen d
    exact hcaches ⟨happlied.holds_remote, happlied.open_eq, happlied.wellFormed, happlied.unlimited,
      happlied.mirrors⟩ (.refl _)
  | @last id d m hm hopen hd =>
    have happlied := h.applied (hget hm) hopen d
    have hself : s.tree.get? m.id = some m := hget hm
    exact hsaves (happlied.settled (Tree.get?_setBody_self (m := d.applyTo m) hself))
  | conclude _ hm => exact hsaves (h.settled (hget hm))
  | delete => exact hsaves (h.cleared _)
  | recoverCache => exact hop.elim
  | reload => exact hop.elim
  | fail => exact hop.elim

/-- A run of edits keeps a session coherent. -/
theorem runTimed (h : Coherent holds conversation s) {events : List Event}
    (hops : ∀ e ∈ events, Edits e.op) : Coherent holds conversation (s.runTimed events) := by
  have hallowed : Along (fun _ op => Edits op) s events := Along.of_forall fun e he _ => hops e he
  refine hallowed.preserves (fun s now hs => hs.atTime now) (fun s op hs hop => ?_) h
  have hstep := step_after hs.open_eq hs.wellFormed.keyed (hop.remains conversation)
  exact (hs.step reliable hstep hop).1

end Coherent

end Session

/-! ### Loading after saving -/

namespace Mirrors

variable {k : Memory}

/-- The cache has a current record of every message of a complete tree that it mirrors. -/
lemma upToDate (h : Mirrors k conversation t) (hk : k.Keyed)
    (hdone : ∀ id m, t.get? id = some m → m.done = true) :
    Stores.UpToDate k conversation t.outline := by
  intro id hid
  obtain ⟨m, hm⟩ := Tree.contains_iff_exists_get?.mp (Tree.mem_outline_iff.mp hid)
  obtain ⟨r, hr⟩ := mem_iff_exists_getElem?.mp
    ((h.mem_iff id).mpr (Tree.contains_iff_exists_get?.mpr ⟨m, hm⟩))
  have hsame := h.sameBody id r m hr hm (hdone id m hm)
  have hnode : t.outline.nodes[id]? = some (Tree.nodeOf m) := by
    rw [Tree.getElem?_outline, hm, Option.map_some]
  exact (Stores.hasCurrent_iff hk).mpr
    ⟨r, _, hr, hnode, (h.fingerprint_eq id r hr).trans hsame.fingerprint_eq⟩

/-- The records of a complete tree that is mirrored are faithful. -/
lemma faithful (h : Mirrors k conversation t) (hk : k.Keyed)
    (hdone : ∀ id m, t.get? id = some m → m.done = true) :
    ∀ r ∈ k.recordsOf conversation, Stores.Faithful t r := by
  intro r hr m hm _
  exact h.sameBody r.id r m (hk.mem_recordsOf_iff.mp hr) hm (hdone r.id m hm)

/-- There are no more records than messages. -/
lemma length_recordsOf_le (h : Mirrors k conversation t) (hk : k.Keyed) :
    (k.recordsOf conversation).length ≤ t.size := by
  rw [← hk.size_byId, Tree.size, ← Std.ExtTreeMap.length_keys (t := t.messages)]
  refine size_le_length fun id hid => ?_
  obtain ⟨r, hr⟩ := mem_iff_exists_getElem?.mp hid
  rw [hk.getElem?_byId] at hr
  have hmem := (h.mem_iff id).mp (mem_iff_exists_getElem?.mpr ⟨r, hr⟩)
  exact Std.ExtTreeMap.mem_keys.mpr hmem

end Mirrors

/-- A pass over a cache that is up to date, with no more records than there are messages, only reads it. -/
lemma Stores.Pass.end_eq_of_upToDate [Remote ρ] {s s' : Stores ρ Memory} (p : Pass s s' conversation)
    (hs : s.Unlimited) (hup : Stores.UpToDate s.cache conversation p.outline)
    (hle : (s.cache.recordsOf conversation).length ≤ p.outline.size) :
    p.fetched = ∅ ∧ p.holdings.stale = false ∧ s'.cache = s.cache ∧
      s'.calls = s.calls ++ [.outline conversation (.ok p.outline),
        .read conversation (.ok (s.cache.recordsOf conversation)),
        .read conversation (.ok (s.cache.recordsOf conversation))] := by
  have hwanted : p.wanted = [] := (p.wanted_eq_nil_iff hs.degraded_eq hs.keyed hup).mpr (Or.inl hle)
  have hasked : p.asked.cache = s.cache ∧ p.asked.degraded = false ∧
      p.asked.calls = s.calls ++ [.outline conversation (.ok p.outline)] := by
    rw [p.asked_eq]
    exact ⟨rfl, hs.degraded_eq, rfl⟩
  obtain ⟨hcache, hdegraded, hcalls⟩ := hasked
  -- Stock is taken without dropping anything, since there are no more records than messages.
  have hnotMore : ¬ p.outline.size < (Record.byId (p.asked.cache.recordsOf conversation)).size := by
    rw [hcache, hs.keyed.size_byId]
    exact Nat.not_lt.mpr hle
  obtain ⟨hholdings, hstocked⟩ := Prod.mk.inj
    (p.takeStock_eq.symm.trans (Stores.takeStock_of_le hdegraded conversation hnotMore))
  rcases Stores.fetch_cases p.fetch_eq with ⟨-, hfetched, hsupplied⟩ | ⟨hne, -⟩
  · have hbatch : p.batch = [] := by
      rw [Stores.Pass.batch, hwanted]
      rfl
    have hcached : p.cached = p.supplied := by
      rw [p.cached_eq hs.degraded_eq, hbatch, Stores.store_nil]
    have hend : p.checked = s' := p.checked_eq_end hs.degraded_eq hs.keyed (hs.fits rfl)
      (hs.fits (p.quota_supplied hs.degraded_eq))
    have hchecked : p.checked = (p.stocked.callRead conversation).2 := by
      have h := p.cachedRecords_cached
      rw [hcached, hsupplied, Stores.cachedRecords_eq (by rw [hstocked]; exact hdegraded)] at h
      exact (Prod.mk.inj h).2.symm
    have hread : s' = ((p.asked.callRead conversation).2.callRead conversation).2 :=
      hend.symm.trans (by rw [hchecked, hstocked])
    refine ⟨hfetched, by rw [hholdings], (congrArg Stores.cache hread).trans hcache,
      (congrArg Stores.calls hread).trans ?_⟩
    change (p.asked.calls ++ [.read conversation (.ok (p.asked.cache.recordsOf conversation))]) ++
      [.read conversation (.ok (p.asked.cache.recordsOf conversation))] = _
    rw [hcalls, hcache]
    simp only [List.append_assoc, List.cons_append, List.nil_append]
  · exact absurd hwanted hne

/-- Nothing is carried over into a tree that has everything complete already. -/
lemma carryInFlight_eq_self (hdone : ∀ id m, t.get? id = some m → m.done = true) (streams : Streams) :
    carryInFlight t streams t = t := by
  have hresponse : ∀ id, carryResponse t t id = t := by
    intro id
    unfold carryResponse
    cases hm : t.get? id with
    | some m =>
      rw [Option.any_some, if_pos (hdone id m hm)]
    | none =>
      have hpath : t.path id = [] := Tree.path_eq_nil_iff.mpr fun hid => by
        obtain ⟨m, hm'⟩ := Tree.mem_iff_exists_get?.mp hid
        rw [hm] at hm'
        cases hm'
      rw [hpath]
      exact ite_self t
  rw [carryInFlight_eq_foldl]
  exact List.foldl_fixed' hresponse streams.active

namespace Session

variable {holds : ρ → Prop} {held : ρ → Option Tree} [Remote ρ] {s : Session ρ Memory}

/-- A save is noted after what was noted before. -/
lemma noted_save {s' : Session ρ Memory} (h : s.stores.calls <+: s'.stores.calls) :
    Noted s.stores (s'.save conversation).stores (.save conversation s'.saveRequest
      (s'.stores.save conversation s'.saveRequest).1) := by
  rw [stores_save]
  have hnoted : Noted s'.stores (s'.stores.save conversation s'.saveRequest).2
      (.save conversation s'.saveRequest (s'.stores.save conversation s'.saveRequest).1) :=
    ⟨_, rfl, List.mem_singleton_self _⟩
  exact hnoted.mono h List.prefix_rfl

/-- Synchronising a coherent session that was just saved, with all messages complete, only asks for the outline
and reads the cache twice. -/
lemma Coherent.refresh_eq (h : Coherent holds conversation s) (reliable : Reliable holds held conversation)
    (hheld : held s.stores.remote = some s.tree) (hdone : ∀ id m, s.tree.get? id = some m → m.done = true) :
    ∃ stores, s.stores.refresh conversation =
        (.ok (s.tree, ⟨.differential, 0, false, s.tree.size⟩), stores) ∧
      stores.cache = s.stores.cache ∧
      stores.calls = s.stores.calls ++ [.outline conversation (.ok s.tree.outline),
        .read conversation (.ok (s.stores.cache.recordsOf conversation)),
        .read conversation (.ok (s.stores.cache.recordsOf conversation))] := by
  have honest := reliable.honest s.tree
  have hhonest := And.intro h.holds_remote hheld
  have hkeyed := h.unlimited.keyed
  obtain ⟨stores, ⟨p⟩⟩ := Stores.exists_pass_of_honest honest (s := s.stores) hhonest
  obtain ⟨houtline, -⟩ := p.outline_eq honest hhonest
  have hup : Stores.UpToDate s.stores.cache conversation p.outline :=
    houtline ▸ h.mirrors.upToDate hkeyed hdone
  have hle : (s.stores.cache.recordsOf conversation).length ≤ p.outline.size := by
    rw [houtline, Tree.size_outline]
    exact h.mirrors.length_recordsOf_le hkeyed
  obtain ⟨hfetched, hstale, hcache, hcalls⟩ := p.end_eq_of_upToDate h.unlimited hup hle
  have hpass := p.refresh_eq h.unlimited.degraded_eq
  obtain ⟨report, stores', hrefresh⟩ := Stores.refresh_of_honest honest h.wellFormed
    (Stores.keeps_memory conversation (Stores.Faithful s.tree)) hhonest (h.mirrors.faithful hkeyed hdone)
  have htree : p.tree = s.tree :=
    congrArg Prod.fst (Except.ok.inj (Prod.mk.inj (hpass.symm.trans hrefresh)).1)
  refine ⟨stores, ?_, hcache, houtline ▸ hcalls⟩
  rw [hpass, Stores.Pass.report, htree, hfetched, hstale]
  rfl

/-- A session opens a conversation that is not cached, over a cache without a limit and a remote store that is
reliable about it, and edits it. If the last edit saves and leaves every message complete, loading the
conversation then shows the same history again. The pass is differential: it asks for the outline and reads the
cache, and neither fetches nor drops nor writes anything. -/
theorem load_after_saving (reliable : Reliable holds held conversation) (hholds : holds s.stores.remote)
    (hs : s.stores.Unlimited) (hnew : s.stores.cache.recordsOf conversation = []) {events : List Event}
    {last : Event} (hops : ∀ e ∈ events ++ [last], Edits e.op) {request : SaveRequest}
    {reply : Except Failure Unit}
    (hsave : Noted ((s.startNew conversation).runTimed events).stores
      ((s.startNew conversation).runTimed (events ++ [last])).stores (.save conversation request reply))
    (hdone : ∀ id m, ((s.startNew conversation).runTimed (events ++ [last])).tree.get? id = some m →
      m.done = true) (now : Int64) :
    let edited := (s.startNew conversation).runTimed (events ++ [last])
    let loaded := (edited.atTime now).after (.load conversation)
    let records := edited.stores.cache.recordsOf conversation
    ((edited.atTime now).perform (.load conversation)).1 = .history edited.tree.toHistory ∧
      loaded.tree = edited.tree ∧ loaded.report = some ⟨.differential, 0, false, edited.tree.size⟩ ∧
      loaded.stores.cache = edited.stores.cache ∧
      loaded.stores.calls = edited.stores.calls ++ [.outline conversation (.ok edited.tree.outline),
        .read conversation (.ok records), .read conversation (.ok records)] := by
  have hopened : Coherent holds conversation (s.startNew conversation) := .startNew hholds hs hnew
  obtain ⟨hbefore, hlast⟩ := List.forall_mem_append.mp hops
  have hlast := hlast last (List.mem_singleton_self last)
  have hcoherent := (hopened.runTimed reliable hbefore).atTime last.now
  have hstep := step_after hcoherent.open_eq hcoherent.wellFormed.keyed
    (hlast.remains conversation)
  obtain ⟨hedited, hheld⟩ := hcoherent.step reliable hstep hlast
  rw [← runTimed_concat] at hedited hheld
  have hheld := hheld request reply hsave
  dsimp only
  -- From here on all that counts of the run is that it has led to a coherent session.
  generalize (s.startNew conversation).runTimed (events ++ [last]) = edited at hedited hheld hdone ⊢
  rw [hedited.wellFormed.ofHistory_toHistory] at hheld
  obtain ⟨stores, hrefresh, hcache, hcalls⟩ := (hedited.atTime now).refresh_eq reliable hheld hdone
  have hload := load_of_ok (s := edited.atTime now) hedited.open_eq hrefresh
  have htree : ((edited.atTime now).load conversation).tree = edited.tree := by
    rw [hload]
    exact carryInFlight_eq_self hdone edited.streams
  refine ⟨congrArg (fun t : Tree => Answer.history t.toHistory) htree, htree, ?_, ?_, ?_⟩
  · change ((edited.atTime now).load conversation).report = _
    rw [hload]
    rfl
  · change ((edited.atTime now).load conversation).stores.cache = _
    rw [hload]
    exact hcache
  · change ((edited.atTime now).load conversation).stores.calls = _
    rw [hload]
    exact hcalls

/-- A session in which nothing is open yet, with nothing saved and nothing cached. -/
def untouched : Session Remote.Archive Memory where
  stores.remote := ∅
  stores.cache := {}

/-- A question is attached and then a response to it, which comes but for its end. -/
def replying : List Event :=
  [⟨1, .attach none (Message.ask "Why?" "a" 1)⟩, ⟨2, .attach (some "a") (Message.await "model" "b" 2)⟩,
    ⟨3, .receive "b" { content := some "Because" }⟩]

/-- Making the response complete saves the conversation. -/
lemma exists_saved_replying :
    ∃ request reply, Noted ((untouched.startNew "c").runTimed replying).stores
      ((untouched.startNew "c").runTimed (replying ++ [⟨4, .finish "b"⟩])).stores
      (.save "c" request reply) := by
  have hopen : (((untouched.startNew "c").runTimed replying).atTime 4).conversation = some "c" := by
    decide +kernel
  have hany : ((((untouched.startNew "c").runTimed replying).atTime 4).tree.get? "b").any
      (fun m => !m.done) = true := by decide +kernel
  obtain ⟨m, hm, hdone⟩ := (Option.any_eq_true _ _).mp hany
  rw [runTimed_concat]
  generalize (untouched.startNew "c").runTimed replying = s at hopen hm ⊢
  change ∃ request reply, Noted s.stores ((s.atTime 4).finish "b").2.stores _
  rw [finish_of_open hopen hm (Or.inl (by simpa using hdone))]
  have hcached : CacheSteps "c" (fun _ => True) (s.atTime 4).stores
      (((s.atTime 4).settled m).cacheAll [(s.atTime 4).recordOf "c" ((s.atTime 4).completed m)]).stores :=
    (CacheSteps.refl _).store trivial
  exact ⟨_, _, noted_save (s := s) hcached.calls_isPrefix⟩

/-- Loading the conversation after that shows both messages again and fetches neither. -/
theorem load_after_saving_replying :
    let edited := (untouched.startNew "c").runTimed (replying ++ [⟨4, .finish "b"⟩])
    let loaded := (edited.atTime 5).after (.load "c")
    loaded.tree = edited.tree ∧ loaded.report = some ⟨.differential, 0, false, 2⟩ := by
  have hall : ((untouched.startNew "c").runTimed (replying ++ [⟨4, .finish "b"⟩])).tree.messages.values.all
      Message.done = true := by decide +kernel
  have hsize : ((untouched.startNew "c").runTimed (replying ++ [⟨4, .finish "b"⟩])).tree.size = 2 := by
    decide +kernel
  have hops : ∀ e ∈ replying ++ [⟨4, .finish "b"⟩], Edits e.op := by
    simp [replying, Edits]
  obtain ⟨request, reply, hsave⟩ := exists_saved_replying
  obtain ⟨-, htree, hreport, -⟩ := load_after_saving (Remote.Archive.reliable "c")
    (s := untouched) (fun t ht => by cases ht) ⟨rfl, Memory.keyed_clear {}, rfl⟩ rfl hops hsave
    (fun id m hm => List.all_eq_true.mp hall m (mem_values_iff.mpr ⟨id, hm⟩)) 5
  rw [hsize] at hreport
  exact ⟨htree, hreport⟩

end Session

end Client

end DialogueSync
