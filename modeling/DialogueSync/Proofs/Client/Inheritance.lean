import DialogueSync.Proofs.Client.Agreement
import DialogueSync.Proofs.Client.Syncing
import DialogueSync.Proofs.Remote.Truthful

/-!
# What is handed on when a conversation is synchronised

Against a truthful remote store, synchronising either fails or gives a tree with the ids and the links of the
one that the store holds, for which the bodies come from the store or from the cache. A property of messages
is `Hereditary` if a cached message that passes for one with the property has it too. If all messages of the
store have it, then so does every message of the synchronised tree (`inherits_refresh`), and the cache stays
good for that, whether synchronising succeeds or not and whatever calls fail on the way.
-/

namespace DialogueSync.Client.Stores

open Cache (Record)
open DialogueSync.Tree (Linked parentIn Circular)
open Message (SameBody)
open Remote (Truthful)

variable {ρ κ : Type} {conversation : String} {t t' : Tree} {holds : ρ → Prop}
  {held : ρ → Option Tree} {P : Message → Prop} {good : Record → Prop}

/-! ### Asking a truthful store -/

/-- Asking a truthful store leaves it truthful, with the tree that it has held. -/
lemma SyncSteps.held_eq [Remote ρ] [Cache κ] {s s' : Stores ρ κ} {batch : List Record → Prop}
    (h : SyncSteps conversation batch s s') (truth : Truthful holds held conversation)
    (hs : holds s.remote) : holds s'.remote ∧ held s'.remote = held s.remote := by
  refine h.remote_holds (fun a => holds a ∧ held a = held s.remote) (fun a ha => ?_) (fun a ids ha => ?_)
    (fun a ha => ?_) ⟨hs, rfl⟩
  · obtain ⟨hholds, heq, -⟩ := truth.outline a ha.1
    exact ⟨hholds, heq.trans ha.2⟩
  · obtain ⟨hholds, heq, -⟩ := truth.bodies a ids ha.1
    exact ⟨hholds, heq.trans ha.2⟩
  · obtain ⟨hholds, heq, -⟩ := truth.snapshot a ha.1
    exact ⟨hholds, heq.trans ha.2⟩

/-! ### Trees with the same ids and links -/

/-- A linked tree, all messages of which have a property. -/
structure Throughout (P : Message → Prop) (t : Tree) : Prop where
  /-- The tree is linked. -/
  linked : Linked t.messages
  /-- Every message has the property. -/
  of_get? : ∀ id m, t.get? id = some m → P m

/-- A tree with the ids and links of another one, all messages of which have a property. -/
structure Renders (P : Message → Prop) (t t' : Tree) : Prop extends Throughout P t' where
  /-- The ids are those of the other tree. -/
  mem_iff : ∀ id, id ∈ t'.messages ↔ id ∈ t.messages
  /-- The links are those of the other tree. -/
  parentIn_eq : ∀ id, parentIn t'.messages id = parentIn t.messages id

/-- A tree built from messages with the ids and links of a linked tree. -/
lemma renders_ofIdMap {ms : IdMap Message} (hkeyed : IdMap.Keyed Message.id ms)
    (ht : Linked t.messages) (hmem : ∀ id, id ∈ ms ↔ id ∈ t.messages)
    (hparent : parentIn ms = parentIn t.messages) (hsame : ∀ m m', SameBody m m' → P m → P m')
    (hall : ∀ (id : String) (m : Message), ms[id]? = some m → P m) (current : Option String) :
    Renders P t (Tree.ofIdMap ms current) where
  linked := (Tree.wellFormed_ofIdMap hkeyed current).toLinked
  of_get? id m hm := by
    obtain ⟨src, hsrc, -, heq⟩ := Tree.exists_of_get?_ofIdMap hm
    refine hsame src m ?_ (hall id src hsrc)
    rw [heq]
    rfl
  mem_iff id := by rw [Tree.mem_ofIdMap_iff, hmem]
  parentIn_eq id := by
    have hacyclic : ∀ id, ¬ Circular (parentIn ms) id := by
      rw [hparent]
      exact ht.acyclic
    change parentIn (Tree.relinkAll (Tree.cutCycles ms)) id = _
    rw [Tree.parentIn_relinkAll, Tree.cutCycles_eq_self hacyclic, hparent]

/-! ### Properties that are handed on -/

/-- A property of bodies that a cached message has if it passes for one that has the property. Messages with the
property make good records, under the fingerprint of one with the same id. -/
structure Hereditary (conversation : String) (good : Record → Prop) (P : Message → Prop) : Prop where
  /-- Links do not matter. -/
  of_sameBody : ∀ m m', SameBody m m' → P m → P m'
  /-- A cached message has the property if it passes for one that has it. -/
  of_good : ∀ r m, good r → P m → m.id = r.id → r.fingerprint = m.fingerprint → P r.message
  /-- A message with the property makes a good record. -/
  good_of : ∀ m m' now, P m → P m' → m'.id = m.id → good ⟨conversation, m, m'.fingerprint, now⟩

/-! ### Passes -/

variable [Remote ρ] [Cache κ] {s s' : Stores ρ κ}

namespace Pass

variable (p : Pass s s' conversation) (truth : Truthful holds held conversation)
include p truth

/-- The outline of the pass is that of the tree which the store holds. -/
lemma exists_held (hs : holds s.remote) : ∃ t, held s.remote = some t ∧ p.outline = t.outline := by
  have h := p.askOutline_eq
  unfold askOutline at h
  exact (truth.outline s.remote hs).2.2 p.outline (congrArg Prod.fst h)

variable (hs : holds s.remote) (ht : held s.remote = some t)
include hs ht

/-- The pass gets the outline that the remote store keeps. -/
lemma outline_eq_of_held : p.outline = t.outline := by
  obtain ⟨t', ht', houtline⟩ := p.exists_held truth hs
  obtain rfl := Option.some.inj (ht.symm.trans ht')
  exact houtline

variable (hP : Hereditary conversation good P) (hall : Throughout P t)
include hP hall

/-- The fetched bodies have the property. -/
lemma inherits_of_fetched {id : String} {m : Message} (h : p.fetched[id]? = some m) : P m := by
  have hnode := p.mem_nodes_of_fetched h
  obtain ⟨hstocked, heq⟩ := (p.syncSteps_stocked fun _ => True).held_eq truth hs
  obtain ⟨rfl, reply, hask, src, hsrc, rfl⟩ := p.exists_of_fetched h
  obtain ⟨t', ht', hreply⟩ := (truth.bodies p.stocked.remote p.wanted hstocked).2.2 reply
    (congrArg Prod.fst hask)
  obtain rfl := Option.some.inj (ht.symm.trans (heq.symm.trans ht'))
  rw [Outline.id_link, p.outline_eq_of_held truth hs ht, Tree.mem_outline_iff] at hnode
  obtain ⟨m', hm'⟩ := Tree.contains_iff_exists_get?.mp hnode
  have hsame : SameBody m' (p.outline.link src) :=
    (hreply.sameBody src hsrc m' hm').symm.trans (Outline.sameBody_link p.outline src)
  exact hP.of_sameBody m' _ hsame (hall.of_get? _ m' hm')

/-- What is written for the fetched bodies is good. -/
lemma good_of_mem_batch : ∀ r ∈ p.batch, good r := by
  intro r hr
  obtain ⟨n, m, -, hm, hn, rfl⟩ := p.mem_batch_iff.mp hr
  rw [p.outline_eq_of_held truth hs ht, Tree.getElem?_outline] at hn
  obtain ⟨m', hm', rfl⟩ := Option.map_eq_some_iff.mp hn
  exact hP.good_of m m' _ (p.inherits_of_fetched truth hs ht hP hall hm) (hall.of_get? _ m' hm')
    (hall.linked.keyed _ m' hm')

/-- A current record that is good carries a body with the property. -/
lemma inherits_of_current {r : Record} {n : Node} (hn : p.outline.nodes[r.id]? = some n)
    (hgood : good r) (hcur : Current r n) : P r.message := by
  rw [p.outline_eq_of_held truth hs ht, Tree.getElem?_outline] at hn
  obtain ⟨m, hm, rfl⟩ := Option.map_eq_some_iff.mp hn
  exact hP.of_good r m hgood (hall.of_get? _ m hm) (hall.linked.keyed _ m hm) hcur

/-- Wherever a body comes from, it has the property if good records were read. -/
lemma inherits_of_bodyOf (hheld : ∀ r ∈ (p.asked.cachedRecords conversation).1.getD [], good r)
    (hreread : ∀ r ∈ p.reread.getD [], good r) {id : String} {n : Node} {b : Body}
    (hn : p.outline.nodes[id]? = some n) (h : p.bodyOf id n = some b) : P b.message := by
  rcases p.bodyOf_cases hn h with ⟨r, hr, rfl, hcur, rfl⟩ | ⟨m, hm, rfl⟩ | ⟨r, hr, hcur, rfl⟩
  · exact p.inherits_of_current truth hs ht hP hall hn (hreread r hr) hcur
  · exact p.inherits_of_fetched truth hs ht hP hall hm
  · obtain ⟨hmem, rfl⟩ := p.mem_of_held hr
    exact p.inherits_of_current truth hs ht hP hall hn (hheld r hmem) hcur

/-- The tree of the pass has the ids and links that the store has, and the property is handed on to it and to
the cache. -/
lemma inherits {keeping : κ → Prop} (keeps : Keeps keeping conversation good)
    (hcache : keeping s.cache) : keeping s'.cache ∧ Renders P t p.tree := by
  obtain ⟨hasked, hsupplied⟩ := p.keeping_supplied keeps hcache
  have hcached := keeps.of_cacheSteps
    (p.cacheSteps_cached _ (p.good_of_mem_batch truth hs ht hP hall)) hsupplied
  have hheld := fun r => keeps.good_of_cachedRecords (r := r) hasked
  have hreread : ∀ r ∈ p.reread.getD [], good r := by
    intro r hr
    refine keeps.good_of_cachedRecords hcached ?_
    rwa [p.cachedRecords_cached]
  have hbody : ∀ {id : String} {n : Node} {b : Body}, p.outline.nodes[id]? = some n →
      p.bodyOf id n = some b → P (p.outline.link b.message) := by
    intro id n b hn hb
    exact hP.of_sameBody _ _ (Outline.sameBody_link p.outline b.message)
      (p.inherits_of_bodyOf truth hs ht hP hall hheld hreread hn hb)
  have houtline := p.outline_eq_of_held truth hs ht
  constructor
  · refine keeps.of_cacheSteps (p.cacheSteps_end _ fun r hr => ?_)
      (keeps.of_cacheSteps (p.cacheSteps_checked _) hcached)
    obtain ⟨n, m, hb, hn, rfl⟩ := p.mem_lost_iff.mp hr
    have hlink : P (p.outline.link m) := hbody hn hb
    rw [houtline, Tree.getElem?_outline] at hn
    obtain ⟨m', hm', rfl⟩ := Option.map_eq_some_iff.mp hn
    refine hP.good_of _ m' _ hlink (hall.of_get? _ m' hm') ?_
    rw [Outline.id_link, hall.linked.keyed _ m' hm']
  · rw [p.tree_eq]
    refine renders_ofIdMap p.keyed_bodies hall.linked (fun id => ?_) ?_ hP.of_sameBody
      (fun id m hm => ?_) _
    · rw [p.mem_bodies_iff, houtline, Tree.mem_outline_iff]
      rfl
    · rw [p.parentIn_bodies, houtline, Tree.parentOf_outline]
    · obtain ⟨n, b, hn, hb, rfl⟩ := p.exists_bodyOf_of_bodies hm
      exact hbody hn hb

end Pass

/-! ### Synchronising -/

variable {keeping : κ → Prop}

/-- A differential pass that fails leaves the cache good. -/
lemma keeping_of_refreshChanged_error (keeps : Keeps keeping conversation good) {e : Failure}
    (hcache : keeping s.cache) (h : s.refreshChanged conversation = (.error e, s')) :
    keeping s'.cache :=
  (syncSteps_of_refreshChanged_error h).keeping keeps hcache

variable (truth : Truthful holds held conversation) (keeps : Keeps keeping conversation good)
  (hP : Hereditary conversation good P)
include truth keeps hP

/-- A full fetch leaves the cache good, and if it succeeds the property is handed on. -/
lemma inherits_refreshWhole (hs : holds s.remote)
    (hheld : ∀ t, held s.remote = some t → Throughout P t) (hcache : keeping s.cache) :
    keeping (s.refreshWhole conversation).2.cache ∧
      ∀ outcome, (s.refreshWhole conversation).1 = .ok outcome →
        ∃ t, held s.remote = some t ∧ Renders P t outcome.1 := by
  rcases refreshWhole_cases (Prod.eta (s.refreshWhole conversation)).symm with
    ⟨e, hreply, hask⟩ | ⟨full, asked, hask, hreply, hs'⟩
  · refine ⟨?_, fun outcome hok => by cases hreply.symm.trans hok⟩
    rw [(askSnapshot_frame hask).2.1]
    exact hcache
  · obtain ⟨t, ht, houtline, hbodies, hmem⟩ :=
      (truth.snapshot s.remote hs).2.2 full (congrArg Prod.fst hask)
    have hall := hheld t ht
    have hrenders : Renders P t (treeOf full) := by
      have hcollect := collect_link_eq hbodies hmem
      rw [treeOf, Tree.ofMessages, houtline, hcollect]
      exact renders_ofIdMap hall.linked.keyed hall.linked (fun _ => Iff.rfl) rfl hP.of_sameBody
        hall.of_get? _
    have hrecords : ∀ r ∈ (treeOf full).messages.values.map
        (snapshotRecord conversation full asked.clock), good r := by
      intro r hr
      obtain ⟨m, hm, rfl⟩ := List.mem_map.mp hr
      obtain ⟨id, hid⟩ := mem_values_iff.mp hm
      obtain rfl : m.id = id := hrenders.linked.keyed id m hid
      obtain ⟨m', hm'⟩ := Tree.mem_iff_exists_get?.mp
        ((hrenders.mem_iff m.id).mp (Tree.mem_iff_exists_get?.mpr ⟨m, hid⟩))
      have hrecord := hP.good_of m m' asked.clock (hrenders.of_get? m.id m hid)
        (hall.of_get? m.id m' hm') (hall.linked.keyed m.id m' hm')
      rw [snapshotRecord, houtline, Tree.getElem?_outline, hm']
      exact hrecord
    rw [hs']
    refine ⟨keeps.of_cacheSteps ((CacheSteps.refl asked).overwrite hrecords) ?_, fun outcome hok => ?_⟩
    · rw [(askSnapshot_frame hask).2.1]
      exact hcache
    · obtain rfl := Except.ok.inj (hreply.symm.trans hok)
      exact ⟨t, ht, hrenders⟩

/-- Against a truthful store synchronising leaves the cache good, whatever comes of it. If it succeeds, the tree
has the ids and links that the store has, and the property is handed on. -/
lemma inherits_refresh (hs : holds s.remote)
    (hheld : ∀ t, held s.remote = some t → Throughout P t) (hcache : keeping s.cache) :
    keeping (s.refresh conversation).2.cache ∧
      ∀ outcome, (s.refresh conversation).1 = .ok outcome →
        ∃ t, held s.remote = some t ∧ Renders P t outcome.1 := by
  rcases refresh_cases (Prod.eta (s.refresh conversation)).symm with
    ⟨-, p, hreply⟩ | ⟨-, e, failed, hpass, hwhole⟩ | ⟨-, hwhole⟩
  · obtain ⟨t, ht, -⟩ := p.exists_held truth hs
    obtain ⟨hkeeping, hrenders⟩ := p.inherits truth hs ht hP (hheld t ht) keeps hcache
    refine ⟨hkeeping, fun outcome hok => ?_⟩
    obtain rfl := Except.ok.inj (hreply.symm.trans hok)
    exact ⟨t, ht, hrenders⟩
  · have hfailed : SyncSteps conversation (fun _ => True) s failed := syncSteps_of_refreshChanged_error hpass
    obtain ⟨hfailed, heq⟩ := hfailed.held_eq truth hs
    have hkeeping := keeping_of_refreshChanged_error keeps hcache hpass
    have hinherits := inherits_refreshWhole truth keeps hP hfailed (fun t ht => hheld t (heq ▸ ht)) hkeeping
    rw [heq, hwhole] at hinherits
    exact hinherits
  · have hinherits := inherits_refreshWhole truth keeps hP hs hheld hcache
    rw [hwhole] at hinherits
    exact hinherits

end DialogueSync.Client.Stores
