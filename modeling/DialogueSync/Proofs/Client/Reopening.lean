import DialogueSync.Proofs.Client.Unlimited
import DialogueSync.Proofs.Tree.Heads

/-!
# Reopening a conversation from the cache

A conversation that was synchronised over a cache without a limit is opened from the cache when the remote store
cannot be reached. All of its messages are there, with the bodies that they had (`Pass.kept`). But a record with
the right fingerprint keeps the parent that it was stored with, and records of messages that the conversation does
not have are left in the cache unless there are more records than messages. So the conversation reopens as it was
synchronised exactly if neither of these shows (`reopened_iff`).
-/

namespace DialogueSync

open Message (SameBody)

/-- The trees have the same messages, with the same parents and bodies. -/
structure Tree.SameMessages (t t' : Tree) : Prop where
  /-- The ids are the same. -/
  contains_iff : ∀ id, t'.contains id ↔ t.contains id
  /-- Every message has the same parent. -/
  parentIn_eq : Tree.parentIn t'.messages = Tree.parentIn t.messages
  /-- Every message has the same body. -/
  sameBody : ∀ id m m', t.get? id = some m → t'.get? id = some m' → SameBody m' m

/-- A built tree has the body of every message that it is built from. -/
lemma Tree.exists_get?_ofIdMap {ms : IdMap Message} {id : String} {src : Message}
    (h : ms[id]? = some src) (current : Option String) :
    ∃ m, (Tree.ofIdMap ms current).get? id = some m ∧ SameBody m src := by
  have hid : id ∈ (Tree.ofIdMap ms current).messages :=
    Tree.mem_ofIdMap_iff.mpr (mem_iff_exists_getElem?.mpr ⟨src, h⟩)
  obtain ⟨m, hm⟩ := Tree.mem_iff_exists_get?.mp hid
  obtain ⟨src', hsrc', -, heq⟩ := Tree.exists_of_get?_ofIdMap hm
  obtain rfl := Option.some.inj (h.symm.trans hsrc')
  refine ⟨m, hm, ?_⟩
  rw [heq]
  rfl

namespace Client

open Cache (Key Memory Record)
open DialogueSync.Tree (Circular SameMessages SettlesTo parentIn)
open Remote (Truthful)

variable {ρ : Type} {conversation : String} {o : Outline}

/-! ### What is opened from the cache -/

/-- The messages that are cached for a conversation. -/
def cachedMessages (k : Memory) (conversation : String) : IdMap Message :=
  IdMap.collect Message.id ((k.recordsOf conversation).map Record.message)

namespace Stores

section Cache

variable {k : Memory} {id : String}

/-- The message cached under an id is that of the record under it. -/
lemma getElem?_cachedMessages (hk : k.Keyed) (conversation id : String) :
    (cachedMessages k conversation)[id]? =
      k.records[(⟨conversation, id⟩ : Key)]?.map Record.message := by
  refine IdMap.getElem?_collect_eq fun m => ?_
  rw [Option.map_eq_some_iff]
  constructor
  · rintro ⟨hm, rfl⟩
    obtain ⟨r, hr, rfl⟩ := List.mem_map.mp hm
    exact ⟨r, hk.mem_recordsOf_iff.mp hr, rfl⟩
  · rintro ⟨r, hr, rfl⟩
    have hmem : r ∈ k.recordsOf conversation := Memory.mem_recordsOf_iff.mpr ⟨id, hr⟩
    exact ⟨List.mem_map_of_mem hmem, congrArg Key.id (hk _ r hr)⟩

/-- The matching records are the current ones of the conversation. -/
lemma getElem?_matching (hk : k.Keyed) (conversation id : String) :
    (matching o (k.recordsOf conversation))[id]? =
      k.records[(⟨conversation, id⟩ : Key)]?.filter fun r => o.nodes[r.id]?.any fun n => Current r n := by
  refine IdMap.getElem?_collect_eq fun r => ?_
  rw [List.mem_filter, Option.filter_eq_some_iff]
  constructor
  · rintro ⟨⟨hr, hcur⟩, rfl⟩
    exact ⟨hk.mem_recordsOf_iff.mp hr, hcur⟩
  · rintro ⟨hr, hcur⟩
    have hid : r.id = id := congrArg Key.id (hk _ r hr)
    exact ⟨⟨Memory.mem_recordsOf_iff.mpr ⟨id, hr⟩, hcur⟩, hid⟩

/-- The parent that is kept for a message: that of its record, if this has the right fingerprint, and
otherwise the one that the outline gives. -/
def keptParent (o : Outline) (records : List Record) (id : String) : Option String :=
  match (matching o records)[id]? with
  | some r => r.message.parent
  | none => o.parentOf id

/-- Without records the parents are those of the outline. -/
lemma keptParent_nil (o : Outline) : keptParent o [] = o.parentOf := by
  funext id
  have hmatching : (matching o [])[id]? = none := by
    refine Std.ExtTreeMap.getElem?_eq_none fun hid => ?_
    obtain ⟨r, hr, -⟩ := IdMap.mem_collect.mp hid
    cases hr
  rw [keptParent, hmatching]

/-- A message with a current record keeps the parent that the record has. -/
lemma keptParent_of_current (hk : k.Keyed) {r : Record} {n : Node}
    (hr : k.records[(⟨conversation, id⟩ : Key)]? = some r) (hn : o.nodes[id]? = some n)
    (hcur : Current r n) : keptParent o (k.recordsOf conversation) id = r.message.parent := by
  have hid : r.id = id := congrArg Key.id (hk _ r hr)
  have hmatching : (matching o (k.recordsOf conversation))[id]? = some r := by
    rw [getElem?_matching hk, hr, Option.filter_some, hid, hn, if_pos (by simpa using hcur)]
  rw [keptParent, hmatching]

/-- Any other one gets the parent that the outline names. -/
lemma keptParent_of_not_hasCurrent (h : ¬ HasCurrent k conversation o id) :
    keptParent o (k.recordsOf conversation) id = o.parentOf id := by
  have hmatching : (matching o (k.recordsOf conversation))[id]? = none :=
    Std.ExtTreeMap.getElem?_eq_none fun hid => h (mem_matching_iff.mp hid)
  rw [keptParent, hmatching]

end Cache

/-! ### What a pass leaves to be opened -/

variable [Remote ρ] {s s' : Stores ρ Memory}

namespace Pass

/-- A fetched body is cached with the parent that the outline gives. -/
lemma parent_of_mem_batch (p : Pass s s' conversation) {r : Record} (hr : r ∈ p.batch) :
    r.message.parent = p.outline.parentOf r.id := by
  obtain ⟨n, m, -, hm, hn, rfl⟩ := p.mem_batch_iff.mp hr
  obtain ⟨-, reply, -, src, -, rfl⟩ := p.exists_of_fetched hm
  rw [Outline.id_link] at hn
  change (p.outline.link src).parent = p.outline.parentOf (p.outline.link src).id
  rw [Outline.id_link, Outline.link_eq hn, Outline.parentOf, hn]
  rfl

variable (p : Pass s s' conversation) (hs : s.Unlimited)
  (hcache : s'.cache = p.supplied.cache.written p.batch)
include hs

lemma unlimited_supplied : p.supplied.Unlimited :=
  ⟨(p.supplied_cases hs.degraded_eq).2.1, p.keyed_supplied hs.keyed,
    (p.quota_supplied hs.degraded_eq).trans hs.quota_eq⟩

/-- A current record that is in the cache in the end gives the body of its message. -/
lemma bodies_of_cached {id : String} {r : Record} {n : Node}
    (hr : (p.supplied.cache.written p.batch).records[(⟨conversation, id⟩ : Key)]? = some r)
    (hn : p.outline.nodes[id]? = some n) (hcur : Current r n) :
    p.assembly.bodies[id]? = some (p.outline.link r.message) := by
  have hk := (p.unlimited_supplied hs).keyed.written p.batch
  have hid : r.id = id := congrArg Key.id (hk _ r hr)
  obtain ⟨hcached, hdegraded⟩ := (p.unlimited_supplied hs).cache_store p.batch
  rw [← p.cached_eq hs.degraded_eq] at hcached hdegraded
  have hreread := (p.checked_eq hdegraded).1
  rw [hcached] at hreread
  have hmatching : (matching p.outline (p.reread.getD []))[id]? = some r := by
    rw [hreread, Option.getD_some, getElem?_matching hk, hr, Option.filter_some, hid, hn,
      if_pos (by simpa using hcur)]
  have hbody : p.bodyOf id n = some (.stored r.message) := by
    rw [bodyOf, bodyFor, hmatching]
  rw [p.getElem?_bodies, hn, Option.bind_some, hbody]
  rfl

include hcache

/-- A message of the outline is cached with the body that the pass has for it, and with the parent that is
kept. -/
lemma exists_cached {id : String} (hid : id ∈ p.outline.nodes) :
    ∃ r, s'.cache.records[(⟨conversation, id⟩ : Key)]? = some r ∧
      p.assembly.bodies[id]? = some (p.outline.link r.message) ∧
      r.message.parent = keptParent p.outline (p.supplied.cache.recordsOf conversation) id := by
  have hk := (p.unlimited_supplied hs).keyed
  obtain ⟨r, n, hr, hn, hcur⟩ := (hasCurrent_iff (hk.written p.batch)).mp
    (p.upToDate_written hs.degraded_eq hs.keyed id hid)
  refine ⟨r, hcache ▸ hr, p.bodies_of_cached hs hr hn hcur, ?_⟩
  have hrid : r.id = id := congrArg Key.id ((hk.written p.batch) _ r hr)
  -- The record was written, or it was there before and is current.
  rcases Memory.mem_or_of_getElem?_insertAll hr with ⟨hmem, -⟩ | ⟨-, hold⟩
  · have hwanted : id ∈ p.wanted := (p.renews_batch.mem_iff id).mpr ⟨r, hmem, hrid⟩
    have hnot := ((p.mem_wanted_iff hs.degraded_eq hs.keyed).mp hwanted).2
    rw [keptParent_of_not_hasCurrent hnot, p.parent_of_mem_batch hmem, hrid]
  · rw [keptParent_of_current hk hold hn hcur]

/-- What is cached in the end is of a message of the outline, or was there when stock was taken. -/
lemma mem_cached_iff {id : String} :
    (⟨conversation, id⟩ : Key) ∈ s'.cache.records ↔
      id ∈ p.outline.nodes ∨ (⟨conversation, id⟩ : Key) ∈ p.supplied.cache.records := by
  constructor
  · intro hkey
    rw [hcache, p.renews_batch.mem_written_iff] at hkey
    rcases hkey with hkey | hkey
    · obtain ⟨x, hx, heq⟩ := List.mem_map.mp hkey
      obtain rfl : x = id := congrArg Key.id heq
      exact Or.inl (mem_nodes_of_mem_wanted hx)
    · exact Or.inr hkey
  · rintro (hid | hkey)
    · obtain ⟨r, hr, -⟩ := p.exists_cached hs hcache hid
      exact mem_iff_exists_getElem?.mpr ⟨r, hr⟩
    · rw [hcache, p.renews_batch.mem_written_iff]
      exact Or.inr hkey

/-- Every message of the pass can be opened from the cache, with its body. -/
lemma exists_opened {id : String} {m : Message} (hm : p.tree.get? id = some m) :
    ∃ m', (Tree.ofIdMap (cachedMessages s'.cache conversation) none).get? id = some m' ∧
      SameBody m' m := by
  have hk : s'.cache.Keyed := hcache ▸ (p.unlimited_supplied hs).keyed.written p.batch
  rw [p.tree_eq] at hm
  obtain ⟨src, hsrc, -, heq⟩ := Tree.exists_of_get?_ofIdMap hm
  have hid : id ∈ p.outline.nodes := p.mem_bodies_iff.mp (mem_iff_exists_getElem?.mpr ⟨src, hsrc⟩)
  obtain ⟨r, hr, hbody, -⟩ := p.exists_cached hs hcache hid
  obtain rfl := Option.some.inj (hsrc.symm.trans hbody)
  have hcached : (cachedMessages s'.cache conversation)[id]? = some r.message := by
    rw [getElem?_cachedMessages hk, hr, Option.map_some]
  obtain ⟨m', hm', hsame⟩ := Tree.exists_get?_ofIdMap hcached none
  refine ⟨m', hm', hsame.trans ((Outline.sameBody_link p.outline r.message).trans ?_)⟩
  rw [heq]
  rfl

/-- If nothing is left over, the cached messages have the parents that are kept. -/
lemma parentIn_cachedMessages
    (hnone : ∀ r ∈ p.supplied.cache.recordsOf conversation, r.id ∈ p.outline.nodes) :
    parentIn (cachedMessages s'.cache conversation) =
      keptParent p.outline (p.supplied.cache.recordsOf conversation) := by
  have hk : s'.cache.Keyed := hcache ▸ (p.unlimited_supplied hs).keyed.written p.batch
  funext id
  rw [parentIn, getElem?_cachedMessages hk]
  by_cases hid : id ∈ p.outline.nodes
  · obtain ⟨r, hr, -, hparent⟩ := p.exists_cached hs hcache hid
    rw [hr, ← hparent]
    rfl
  · have hkey : (⟨conversation, id⟩ : Key) ∉ s'.cache.records := by
      rw [p.mem_cached_iff hs hcache, not_or]
      refine ⟨hid, fun hold => hid ?_⟩
      obtain ⟨r, hr⟩ := mem_iff_exists_getElem?.mp hold
      have hrid : r.id = id := congrArg Key.id ((p.unlimited_supplied hs).keyed _ r hr)
      exact hrid ▸ hnone r (Memory.mem_recordsOf_iff.mpr ⟨id, hr⟩)
    have hnot : ¬ HasCurrent p.supplied.cache conversation p.outline id := by
      rintro ⟨r, -, -, n, hn, -⟩
      exact hid (mem_iff_exists_getElem?.mpr ⟨n, hn⟩)
    rw [keptParent_of_not_hasCurrent hnot, Std.ExtTreeMap.getElem?_eq_none hkey, Outline.parentOf,
      Std.ExtTreeMap.getElem?_eq_none hid]
    rfl

/-- The conversation is opened from the cache as the pass has put it together exactly if nothing is left over,
and the parents that are kept settle to those of the outline. -/
lemma sameMessages_iff (hacyclic : ∀ id, ¬ Circular p.outline.parentOf id) :
    SameMessages p.tree (Tree.ofIdMap (cachedMessages s'.cache conversation) none) ↔
      (∀ r ∈ p.supplied.cache.recordsOf conversation, r.id ∈ p.outline.nodes) ∧
        SettlesTo (keptParent p.outline (p.supplied.cache.recordsOf conversation))
          p.outline.parentOf := by
  have hk : s'.cache.Keyed := hcache ▸ (p.unlimited_supplied hs).keyed.written p.batch
  have hmem : ∀ id, id ∈ cachedMessages s'.cache conversation ↔
      (⟨conversation, id⟩ : Key) ∈ s'.cache.records := by
    intro id
    rw [Std.ExtTreeMap.mem_iff_isSome_getElem?, Std.ExtTreeMap.mem_iff_isSome_getElem?,
      getElem?_cachedMessages hk, Option.isSome_map]
  have hshown : ∀ id, p.tree.contains id ↔ id ∈ p.outline.nodes := by
    intro id
    rw [p.tree_eq, ← p.mem_bodies_iff]
    exact Tree.mem_ofIdMap_iff
  have hopened : ∀ id, (Tree.ofIdMap (cachedMessages s'.cache conversation) none).contains id ↔
      id ∈ p.outline.nodes ∨ (⟨conversation, id⟩ : Key) ∈ p.supplied.cache.records := by
    intro id
    rw [← p.mem_cached_iff hs hcache, ← hmem]
    exact Tree.mem_ofIdMap_iff
  have hparent : parentIn p.tree.messages = p.outline.parentOf := by
    rw [p.tree_eq, Tree.parentIn_ofIdMap, Tree.cutCycles_eq_self (by rwa [p.parentIn_bodies]),
      p.parentIn_bodies]
  -- All that is shown is cached; what is left over is cached, too, and would be shown besides.
  constructor
  · intro hsame
    have hnone : ∀ r ∈ p.supplied.cache.recordsOf conversation, r.id ∈ p.outline.nodes := by
      intro r hr
      have hkey := (p.unlimited_supplied hs).keyed.mem_recordsOf_iff.mp hr
      rw [← hshown, ← hsame.contains_iff, hopened]
      exact Or.inr (mem_iff_exists_getElem?.mpr ⟨r, hkey⟩)
    refine ⟨hnone, ?_⟩
    rw [← p.parentIn_cachedMessages hs hcache hnone, ← hparent, ← Tree.parentIn_cutCycles_eq_iff,
      ← hsame.parentIn_eq, Tree.parentIn_ofIdMap]
  · rintro ⟨hnone, hsettles⟩
    rw [← p.parentIn_cachedMessages hs hcache hnone, ← Tree.parentIn_cutCycles_eq_iff] at hsettles
    refine ⟨fun id => ?_, ?_, fun id m m' hm hm' => ?_⟩
    · rw [hopened, hshown]
      refine or_iff_left_of_imp fun hkey => ?_
      obtain ⟨r, hr⟩ := mem_iff_exists_getElem?.mp hkey
      have hrid : r.id = id := congrArg Key.id ((p.unlimited_supplied hs).keyed _ r hr)
      exact hrid ▸ hnone r (Memory.mem_recordsOf_iff.mpr ⟨id, hr⟩)
    · rw [hparent, Tree.parentIn_ofIdMap, hsettles]
    · obtain ⟨m'', hm'', hsame⟩ := p.exists_opened hs hcache hm
      obtain rfl := Option.some.inj (hm'.symm.trans hm'')
      exact hsame

end Pass

omit [Remote ρ] in
/-- After a full fetch the conversation is opened from the cache as it was fetched. -/
lemma sameMessages_of_whole {full : Snapshot} {now : Int64} (hs : s.Unlimited)
    (hcache : s'.cache = (s.cache.drop conversation).written
      ((treeOf full).messages.values.map (snapshotRecord conversation full now))) :
    SameMessages (treeOf full) (Tree.ofIdMap (cachedMessages s'.cache conversation) none) := by
  have hlinked : Tree.Linked (treeOf full).messages := (Tree.wellFormed_ofMessages _ _).toLinked
  have hmessages : cachedMessages s'.cache conversation = (treeOf full).messages := by
    have hk : s'.cache.Keyed := hcache ▸ (hs.keyed.drop conversation).written _
    refine Std.ExtTreeMap.ext_getElem? fun {id} => ?_
    rw [getElem?_cachedMessages hk, hcache, Memory.getElem?_replaced hlinked.keyed (fun _ => rfl),
      Option.map_map]
    exact congrFun Option.map_id _
  rw [hmessages]
  have heq := hlinked.messages_ofIdMap none
  refine ⟨fun id => ?_, by rw [heq], fun id m m' hm hm' => ?_⟩
  · rw [Tree.contains, heq]
    rfl
  · rw [Tree.get?, heq] at hm'
    obtain rfl := Option.some.inj (hm.symm.trans hm')
    exact SameBody.refl m

/-- Neither the outline of a conversation nor the whole of it can be had from the remote store. -/
def Unreachable (conversation : String) (a : ρ) : Prop :=
  (∃ e, (Remote.outline conversation a).1 = .error e) ∧
    ∃ e, (Remote.snapshot conversation (Remote.outline conversation a).2).1 = .error e

/-- If the remote store cannot be reached, synchronising fails and leaves the cache as it is. -/
lemma refresh_of_unreachable (hs : s.Unlimited) (h : Unreachable conversation s.remote) :
    ∃ e s', s.refresh conversation = (.error e, s') ∧ s'.cache = s.cache ∧ s'.degraded = s.degraded := by
  obtain ⟨⟨e, he⟩, e', he'⟩ := h
  have houtline : s.askOutline conversation = (.error e, (s.askOutline conversation).2) :=
    Prod.ext he rfl
  have hpass : s.refreshChanged conversation = (.error e, (s.askOutline conversation).2) := by
    unfold refreshChanged
    rw [houtline]
  have hsnapshot : (s.askOutline conversation).2.askSnapshot conversation =
      (.error e', ((s.askOutline conversation).2.askSnapshot conversation).2) := Prod.ext he' rfl
  refine ⟨e', ((s.askOutline conversation).2.askSnapshot conversation).2, ?_, rfl, rfl⟩
  rw [refresh, if_neg (by simp [hs.degraded_eq]), hpass]
  dsimp only
  unfold refreshWhole
  rw [hsnapshot]

end Stores

/-! ### Sessions -/

namespace Session

open Stores (Unreachable keptParent)

variable [Remote ρ] {s : Session ρ Memory}

/-- The session after a conversation is loaded while the remote store is in a certain state. -/
def loadFrom (s : Session ρ Memory) (a : ρ) (now : Int64) (conversation : String) : Session ρ Memory :=
  ({ s with stores.remote := a }.atTime now).load conversation

/-- If nothing is in flight, loading shows what was synchronised. -/
lemma load_of_refresh (hidle : s.streams.active = []) {t : Tree} {report : Report}
    {stores : Stores ρ Memory} (h : s.stores.refresh conversation = (.ok (t, report), stores)) :
    (s.load conversation).stores = stores ∧ (s.load conversation).tree = t ∧
      (s.load conversation).conversation = some conversation := by
  by_cases hopen : s.conversation = some conversation
  · rw [load_of_ok hopen h]
    refine ⟨rfl, ?_, hopen⟩
    change carryInFlight s.tree s.streams t = t
    rw [carryInFlight, hidle, List.foldl_nil]
  · rw [load_elsewhere (by simpa [isElsewhere] using hopen) h]
    exact ⟨rfl, rfl, rfl⟩

/-- While the remote store cannot be reached, a conversation that is not open is opened from the cache. -/
lemma loadFrom_of_unreachable (hs : s.stores.Unlimited) (hleft : s.conversation ≠ some conversation)
    {a : ρ} (ha : Unreachable conversation a) (now : Int64) :
    (s.loadFrom a now conversation).conversation = some conversation ∧
      (s.loadFrom a now conversation).tree =
        Tree.ofIdMap (cachedMessages s.stores.cache conversation) none := by
  have hunlimited : ({ s with stores.remote := a }.atTime now).stores.Unlimited := hs.congr rfl rfl
  obtain ⟨e, stores, hrefresh, hcache, hdegraded⟩ := Stores.refresh_of_unreachable hunlimited ha
  have helsewhere : ({ s with stores.remote := a }.atTime now).isElsewhere conversation :=
    decide_eq_true hleft
  rw [loadFrom, load_offline helsewhere hrefresh]
  refine ⟨rfl, ?_⟩
  rw [tree_openOffline (hdegraded.trans hunlimited.degraded_eq), hcache]
  rfl

/-- Suppose that a conversation was loaded with nothing in flight, over a cache without a limit, from a remote
store that is truthful about a well-formed tree, and that then nothing was done but away from it. Opened from the
cache while the remote store cannot be reached, it has all of its messages, with the bodies that were shown. It
has no others, and the same parents, exactly if the whole conversation was fetched, or there were more cached
records than messages, or all cached records were of messages of the tree and the parents that are kept settle to
those of the tree. -/
theorem reopened_iff {holds : ρ → Prop} {held : ρ → Option Tree} {T : Tree}
    (truth : Truthful holds held conversation) (hholds : holds s.stores.remote)
    (hheld : held s.stores.remote = some T) (hT : T.WellFormed) (hs : s.stores.Unlimited)
    (hidle : s.streams.active = []) {t : Tree} {report : Report} {stores : Stores ρ Memory}
    (hload : s.stores.refresh conversation = (.ok (t, report), stores)) {events : List Event}
    (haway : Along (AwayFrom conversation) (s.load conversation) events)
    (hleft : ((s.load conversation).runTimed events).conversation ≠ some conversation) {a : ρ}
    (ha : Unreachable conversation a) (now : Int64) :
    let records := s.stores.cache.recordsOf conversation
    let reopened := ((s.load conversation).runTimed events).loadFrom a now conversation
    (s.load conversation).tree = t ∧ reopened.conversation = some conversation ∧
      (∀ id m, t.get? id = some m → ∃ m', reopened.tree.get? id = some m' ∧ SameBody m' m) ∧
      (SameMessages t reopened.tree ↔
        report.mode = .full ∨ T.size < records.length ∨
          (∀ r ∈ records, T.contains r.id) ∧
            SettlesTo (keptParent T.outline records) (parentIn T.messages)) := by
  obtain ⟨hstores, htree, hopen⟩ := load_of_refresh hidle hload
  have hwell : t.WellFormed := Stores.wellFormed_of_refresh hload
  have hsound : Sound (s.load conversation) := by
    refine ⟨htree ▸ hwell.toLinked, fun hnone => ?_⟩
    rw [hopen] at hnone
    cases hnone
  obtain ⟨hunlimited, hsynced⟩ := hs.synced hload
  obtain ⟨hunlimited', hrecords⟩ := haway.recordsOf_eq hsound (hstores ▸ hunlimited)
  obtain ⟨hconversation, hreopened⟩ := loadFrom_of_unreachable hunlimited' hleft ha now
  -- Away from the conversation its records stay as loading it has left them.
  have hcached : cachedMessages ((s.load conversation).runTimed events).stores.cache conversation =
      cachedMessages stores.cache conversation := by
    rw [cachedMessages, hrecords, hstores, cachedMessages]
  rw [hcached] at hreopened
  dsimp only
  rw [hreopened]
  refine ⟨htree, hconversation, ?_⟩
  cases hsynced with
  | whole full written report hmode hcache =>
    have hsame := Stores.sameMessages_of_whole hs hcache
    refine ⟨fun id m hm => ?_, iff_of_true hsame (Or.inl hmode)⟩
    obtain ⟨m', hm'⟩ := Tree.contains_iff_exists_get?.mp
      ((hsame.contains_iff id).mpr (Tree.contains_iff_exists_get?.mpr ⟨m, hm⟩))
    exact ⟨m', hm', hsame.sameBody id m m' hm hm'⟩
  | pass p hcache =>
    refine ⟨fun id m hm => p.exists_opened hs hcache hm, ?_⟩
    have houtline : p.outline = T.outline := p.outline_eq_of_held truth hholds hheld
    have hacyclic : ∀ id, ¬ Circular p.outline.parentOf id := by
      rw [houtline, Tree.parentOf_outline]
      exact hT.acyclic
    have hmode : p.report.mode ≠ .full := fun h => by cases h
    rw [p.sameMessages_iff hs hcache hacyclic, or_iff_right hmode]
    -- Either its records were all dropped, and then all the ones there are come from this pass, or none was.
    have hcases := (p.supplied_cases hs.degraded_eq).2.2
    rw [hs.keyed.size_byId, houtline, Tree.size_outline] at hcases
    obtain ⟨hmore, -, hsupplied⟩ | ⟨hle, -, hsupplied⟩ := hcases
    · refine iff_of_true ?_ (Or.inl hmore)
      rw [hsupplied, Memory.recordsOf_drop_self, Stores.keptParent_nil]
      exact ⟨fun r hr => absurd hr List.not_mem_nil, SettlesTo.of_acyclic hacyclic⟩
    · rw [hsupplied, or_iff_right hle, houtline, Tree.parentOf_outline]
      simp only [Tree.mem_outline_iff]

/-- Two conversations, nothing shown, and a cache that holds some messages of the first one. -/
def twoConversations (cached : List Message) : Session (Remote.Scripted Remote.Archive) Memory where
  stores.remote.inner := ((∅ : Remote.Archive).store "c" Stores.exchange).store "d" Stores.exchange
  stores.cache := ({} : Memory).written (cached.map fun m => Record.own "c" m 0)

/-- Three old messages, more than the conversation has now. -/
def oldMessages : List Message :=
  [Message.ask "How?" "x" 0, Message.ask "When?" "y" 0, Message.ask "Where?" "z" 0]

/-- After the other conversation was shown, and then the remote store was lost, the first conversation reopens as
it was synchronised. -/
theorem reopened_oldMessages :
    ∃ t report stores,
      (twoConversations oldMessages).stores.refresh "c" = (.ok (t, report), stores) ∧
      SameMessages t ((((twoConversations oldMessages).load "c").runTimed [⟨5, .load "d"⟩]).loadFrom
        { inner := ∅ } 6 "c").tree := by
  have hok : ((twoConversations oldMessages).stores.refresh "c").1.isOk = true := by decide +kernel
  have hremote : (twoConversations oldMessages).stores.remote.inner["c"]? =
      some (Tree.ofHistory Stores.exchange) := by decide +kernel
  have hfails : Remote.Scripted.OnlyFails "c" (twoConversations oldMessages).stores.remote := by
    refine ⟨nofun, nofun, nofun, nofun, fun t ht => ?_⟩
    obtain rfl := Option.some.inj (hremote.symm.trans ht)
    exact (Tree.wellFormed_ofHistory Stores.exchange).keyed
  have hlost : Unreachable "c" ({ inner := ∅ } : Remote.Scripted Remote.Archive) := by
    exact ⟨⟨.unknownConversation "c", rfl⟩, .unknownConversation "c", rfl⟩
  cases hreply : ((twoConversations oldMessages).stores.refresh "c").1 with
  | error e =>
    rw [hreply] at hok
    cases hok
  | ok outcome =>
    have hrefresh : (twoConversations oldMessages).stores.refresh "c" =
        (.ok (outcome.1, outcome.2), ((twoConversations oldMessages).stores.refresh "c").2) :=
      Prod.ext hreply rfl
    have haway : Along (AwayFrom "c") ((twoConversations oldMessages).load "c") [⟨5, .load "d"⟩] :=
      ⟨show "d" ≠ "c" by decide, trivial⟩
    have h := reopened_iff (Remote.Scripted.truthful "c") hfails hremote
      (Tree.wellFormed_ofHistory Stores.exchange)
      ⟨rfl, (Memory.keyed_clear {}).written _, rfl⟩ (by decide +kernel) hrefresh haway
      (by decide +kernel) hlost 6
    exact ⟨_, _, _, hrefresh, h.2.2.2.mpr (Or.inr (Or.inl (by decide +kernel)))⟩

/-- With one old message in the cache it comes back when the conversation is opened from there. -/
theorem reopened_leftover :
    let loaded := (twoConversations [Message.ask "Where?" "z" 0]).load "c"
    let reopened := (loaded.load "d").loadFrom { inner := ∅ } 6 "c"
    loaded.report.isSome = true ∧ loaded.conversation = some "c" ∧
      (loaded.load "d").conversation = some "d" ∧ reopened.report = none ∧
      loaded.tree.contains "z" = false ∧ reopened.tree.contains "z" = true := by
  decide +kernel

end Session

end Client

end DialogueSync
