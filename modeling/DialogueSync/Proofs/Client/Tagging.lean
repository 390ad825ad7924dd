import DialogueSync.Proofs.Client.Soundness
import DialogueSync.Proofs.Remote.Shifting

/-!
# What the records of the cache are tagged with

A record is stored under a fingerprint, by which it is later found to be up to date or not. A differential pass
asks for the outline and for bodies in two calls, and stores the bodies under the fingerprints of the outline. If
a message changes on the remote store between the two calls, its record has the fingerprint from before and the
body from after: it is `Crossed`.

Against a remote store that may hold something else at every call, but answers each one correctly, nothing else
goes wrong (`fingerprint_eq_or_crossed`): whatever is done with a session, and whatever fails, every record of the
cache has the fingerprint of its own message, or was crossed by one of the operations.
-/

namespace DialogueSync.Client

open Cache (Key Memory Record Scripted)
open Message (SameBody)
open Remote (AreOf Shifting)

/-! ### Records -/

/-- The records are of the same conversation and have the same body under the same fingerprint. -/
structure Alike (r r' : Record) : Prop where
  /-- They are of the same conversation. -/
  conversation_eq : r'.conversation = r.conversation
  /-- They are under the same fingerprint. -/
  fingerprint_eq : r'.fingerprint = r.fingerprint
  /-- They have the same body. -/
  sameBody : SameBody r.message r'.message

/-- A property of records that depends on nothing but conversation, fingerprint and body, and that a record has
if it is under the fingerprint of its own message. -/
structure Tolerant (good : Record → Prop) : Prop where
  /-- A record under the fingerprint of its own message is good. -/
  of_own : ∀ r, r.fingerprint = r.message.fingerprint → good r
  /-- A record is good if one like it is. -/
  of_alike : ∀ r r', Alike r r' → good r → good r'

/-- Good records that are stored under their own keys stay so if good records of the conversation are written. -/
lemma keeps_good (conversation : String) (good : Record → Prop) :
    Stores.Keeps (fun m : Memory => ∀ (k : Key) (r : Record), m.records[k]? = some r → r.key = k ∧ good r)
      conversation fun r => r.conversation = conversation ∧ good r :=
  Stores.keeps_records (fun _ hr => ⟨rfl, hr.2⟩) fun _ _ hr => ⟨congrArg Key.conversation hr.1, hr.2⟩

namespace Stores

variable {ρ κ : Type} [Remote ρ] {held : ρ → String → Option Tree} {s s' s'' : Stores ρ κ} {r r' : Record}

/-- From one state to the other the outline of a tree was asked for, and then bodies of another one. Between the
two calls the message of the record changed: the record has the fingerprint from before and the body from
after. -/
structure Crossed (held : ρ → String → Option Tree) (s s' : Stores ρ κ) (r : Record) (t t' : Tree) : Prop where
  /-- The outline is that of the tree that was held before. -/
  outline : held s.remote r.conversation = some t ∧ Noted s s' (.outline r.conversation (.ok t.outline))
  /-- The bodies are those of the tree that was held once the outline had come, and the body of the record is one
  of them. -/
  bodies : held (Remote.outline r.conversation s.remote).2 r.conversation = some t' ∧
    ∃ ids reply, Noted s s' (.bodies r.conversation ids (.ok reply)) ∧ AreOf t' reply ∧
      ∃ src ∈ reply, SameBody src r.message
  /-- The message is another one by its fingerprint, and the record has that from before. -/
  changed : ∃ old new, t.get? r.id = some old ∧ t'.get? r.id = some new ∧ old.fingerprint ≠ new.fingerprint ∧
    r.fingerprint = old.fingerprint ∧ SameBody r.message new

namespace Crossed

variable {t t' : Tree}

/-- A record is crossed if one like it is. -/
lemma of_alike (h : Crossed held s s' r t t') (halike : Alike r r') : Crossed held s s' r' t t' where
  outline := halike.conversation_eq ▸ h.outline
  bodies := by
    obtain ⟨hheld, ids, reply, hnoted, hreply, src, hsrc, hbody⟩ := h.bodies
    rw [halike.conversation_eq]
    exact ⟨hheld, ids, reply, hnoted, hreply, src, hsrc, hbody.trans halike.sameBody⟩
  changed := by
    obtain ⟨old, new, hold, hnew, hne, hfingerprint, hbody⟩ := h.changed
    have hid : r'.id = r.id := halike.sameBody.id_eq.symm
    refine ⟨old, new, hid ▸ hold, hid ▸ hnew, hne, halike.fingerprint_eq.trans hfingerprint, ?_⟩
    exact halike.sameBody.symm.trans hbody

/-- What was crossed on the way to one state was crossed on the way to a later one. -/
lemma mono (h : Crossed held s s' r t t') (hcalls : s'.calls <+: s''.calls) :
    Crossed held s s'' r t t' where
  outline := ⟨h.outline.1, h.outline.2.mono List.prefix_rfl hcalls⟩
  bodies := by
    obtain ⟨hheld, ids, reply, hnoted, hrest⟩ := h.bodies
    exact ⟨hheld, ids, reply, hnoted.mono List.prefix_rfl hcalls, hrest⟩
  changed := h.changed

end Crossed

variable [Cache κ] {holds : ρ → Prop} {conversation : String} {good : Record → Prop}

/-- A store that is shifting is so after every step of synchronising. -/
lemma SyncSteps.holds_of_shifting {batch : List Record → Prop} (h : SyncSteps conversation batch s s')
    (shifting : Shifting holds held) (hs : holds s.remote) : holds s'.remote :=
  h.remote_holds holds (fun a ha => (shifting.outline conversation a ha).1)
    (fun a ids ha => (shifting.bodies conversation ids a ha).1)
    (fun a ha => (shifting.snapshot conversation a ha).1) hs

/-! ### Passes -/

namespace Pass

variable (p : Pass s s' conversation)

/-- Bodies are asked for once the outline has come, and the calls on the cache do not matter. -/
lemma remote_stocked : p.stocked.remote = (Remote.outline conversation s.remote).2 := by
  have hasked : (s.askOutline conversation).2.remote = p.asked.remote := by rw [p.askOutline_eq]
  rw [(p.cacheSteps_stocked fun _ => True).remote_eq, (p.cacheSteps_asked fun _ => True).remote_eq, ← hasked]
  rfl

variable (shifting : Shifting holds held) (hs : holds s.remote)
include p shifting hs

/-- A fetched body under the fingerprint of the outline is under its own, or it was crossed. -/
lemma own_or_crossed {m : Message} {n : Node} (hm : p.fetched[m.id]? = some m)
    (hn : p.outline.nodes[m.id]? = some n) (now : Int64) :
    n.fingerprint = m.fingerprint ∨ ∃ t t', Crossed held s s' ⟨conversation, m, n.fingerprint, now⟩ t t' := by
  obtain ⟨t, ht, ho⟩ := (shifting.outline conversation s.remote hs).2 p.outline
    (congrArg Prod.fst p.askOutline_eq)
  rw [ho, Tree.getElem?_outline] at hn
  obtain ⟨old, hold, rfl⟩ := Option.map_eq_some_iff.mp hn
  obtain ⟨-, reply, hask, src, hsrc, hlink⟩ := p.exists_of_fetched hm
  have hbody : SameBody src m := hlink ▸ Outline.sameBody_link p.outline src
  have hstocked := (p.syncSteps_stocked fun _ => True).holds_of_shifting shifting hs
  obtain ⟨t', ht', hreply⟩ := (shifting.bodies conversation p.wanted p.stocked.remote hstocked).2 reply
    (congrArg Prod.fst hask)
  rw [p.remote_stocked] at ht'
  obtain ⟨new, hnew, hsame⟩ := hreply src hsrc
  have hsame : SameBody m new := hbody.symm.trans hsame
  rw [hbody.id_eq] at hnew
  by_cases heq : old.fingerprint = new.fingerprint
  · exact Or.inl (heq.trans hsame.fingerprint_eq.symm)
  · have hasked : s.calls <+: p.asked.calls := by
      rw [p.asked_eq]
      exact List.prefix_append _ _
    refine Or.inr ⟨t, t', ⟨ht, ho ▸ p.noted_outline⟩, ?_, old, new, hold, hnew, heq, rfl, hsame⟩
    exact ⟨ht', p.wanted, reply, (p.noted_bodies hask).mono hasked List.prefix_rfl, hreply, src, hsrc, hbody⟩

variable (tolerant : Tolerant good) (hcrossed : ∀ r t t', Crossed held s s' r t t' → good r)
include tolerant hcrossed

/-- If crossed records are good, then so is that of a fetched body under the fingerprint of the outline. -/
lemma good_of_fetched {m : Message} {n : Node} (hm : p.fetched[m.id]? = some m)
    (hn : p.outline.nodes[m.id]? = some n) (now : Int64) : good ⟨conversation, m, n.fingerprint, now⟩ := by
  rcases p.own_or_crossed shifting hs hm hn now with hown | ⟨t, t', h⟩
  · exact tolerant.of_own _ hown
  · exact hcrossed _ t t' h

/-- If crossed records are good, a pass leaves the cache good. -/
lemma keeping_end {keeping : κ → Prop}
    (keeps : Keeps keeping conversation fun r => r.conversation = conversation ∧ good r)
    (hcache : keeping s.cache) : keeping s'.cache := by
  obtain ⟨hasked, hsupplied⟩ := p.keeping_supplied keeps hcache
  have hcached : keeping p.cached.cache := by
    refine keeps.of_cacheSteps (p.cacheSteps_cached _ fun r hr => ?_) hsupplied
    obtain ⟨n, m, -, hm, hn, rfl⟩ := p.mem_batch_iff.mp hr
    exact ⟨rfl, p.good_of_fetched shifting hs tolerant hcrossed hm hn _⟩
  refine keeps.of_cacheSteps (p.cacheSteps_end _ fun r hr => ?_)
    (keeps.of_cacheSteps (p.cacheSteps_checked _) hcached)
  obtain ⟨n, m, hb, hn, rfl⟩ := p.mem_lost_iff.mp hr
  refine ⟨rfl, ?_⟩
  -- What the cache has lost was fetched, or it was held before under the same fingerprint.
  have hlink := Outline.sameBody_link p.outline m
  rcases p.bodyOf_cases hn hb with ⟨r, -, -, -, hstored⟩ | ⟨src, hm, hsrc⟩ | ⟨r, hr, hcur, hsrc⟩
  · cases hstored
  · obtain rfl := Body.inHand.inj hsrc
    have hgood := p.good_of_fetched shifting hs tolerant hcrossed hm hn p.checked.clock
    have halike : Alike ⟨conversation, m, n.fingerprint, p.checked.clock⟩
        ⟨conversation, p.outline.link m, n.fingerprint, p.checked.clock⟩ := ⟨rfl, rfl, hlink⟩
    exact tolerant.of_alike _ _ halike hgood
  · obtain rfl := Body.inHand.inj hsrc
    obtain ⟨hconversation, hgood⟩ := keeps.good_of_cachedRecords hasked (p.mem_of_held hr).1
    exact tolerant.of_alike r _ ⟨hconversation.symm, hcur.symm, hlink⟩ hgood

end Pass

/-! ### Synchronising -/

/-- A full fetch stores every message under its own fingerprint. -/
lemma own_of_snapshot {a : ρ} (shifting : Shifting holds held) (ha : holds a) {full : Snapshot}
    (hfull : (Remote.snapshot conversation a).1 = .ok full) {m : Message}
    (hm : m ∈ (treeOf full).messages.values) (now : Int64) :
    (snapshotRecord conversation full now m).fingerprint = m.fingerprint := by
  obtain ⟨t, -, houtline, hbodies⟩ := (shifting.snapshot conversation a ha).2 full hfull
  obtain ⟨id, hid⟩ := mem_values_iff.mp hm
  obtain ⟨linked, hlinked, -, hbody⟩ := Tree.exists_of_get?_ofIdMap hid
  obtain ⟨src, hsrc, rfl⟩ := List.mem_map.mp (IdMap.mem_of_getElem?_collect hlinked).1
  obtain ⟨m', hm', hsame⟩ := hbodies src hsrc
  have hbody : SameBody src m := by
    refine (Outline.sameBody_link full.outline src).trans ?_
    rw [hbody]
    rfl
  rw [hbody.id_eq] at hm'
  rw [snapshotRecord, houtline, Tree.getElem?_outline, hm']
  exact (hbody.symm.trans hsame).fingerprint_eq.symm

variable {keeping : κ → Prop} (shifting : Shifting holds held) (tolerant : Tolerant good)
  (keeps : Keeps keeping conversation fun r => r.conversation = conversation ∧ good r)
include shifting tolerant keeps

/-- A full fetch leaves the cache good. -/
lemma keeping_refreshWhole (hs : holds s.remote) (hcache : keeping s.cache) :
    keeping (s.refreshWhole conversation).2.cache := by
  rcases refreshWhole_cases (Prod.eta (s.refreshWhole conversation)).symm with
    ⟨e, -, hask⟩ | ⟨full, asked, hask, -, hs'⟩
  · exact (askSnapshot_frame hask).2.1.symm ▸ hcache
  · rw [hs']
    refine keeps.of_cacheSteps ((CacheSteps.refl asked).overwrite fun r hr => ?_)
      ((askSnapshot_frame hask).2.1.symm ▸ hcache)
    obtain ⟨m, hm, rfl⟩ := List.mem_map.mp hr
    exact ⟨rfl, tolerant.of_own _ (own_of_snapshot shifting hs (congrArg Prod.fst hask) hm _)⟩

/-- If crossed records are good, synchronising leaves the cache good, whatever comes of it. -/
lemma keeping_refresh (hs : holds s.remote) (hcache : keeping s.cache)
    (hcrossed : ∀ r t t', Crossed held s (s.refresh conversation).2 r t t' → good r) :
    keeping (s.refresh conversation).2.cache := by
  rcases refresh_cases (Prod.eta (s.refresh conversation)).symm with
    ⟨-, p, -⟩ | ⟨-, e, failed, hpass, hwhole⟩ | ⟨-, hwhole⟩
  · exact p.keeping_end shifting hs tolerant hcrossed keeps hcache
  · have hfailed : SyncSteps conversation (fun _ => True) s failed := syncSteps_of_refreshChanged_error hpass
    have hkeeping := keeping_refreshWhole shifting tolerant keeps (hfailed.holds_of_shifting shifting hs)
      (keeping_of_refreshChanged_error keeps hcache hpass)
    rwa [hwhole] at hkeeping
  · have hkeeping := keeping_refreshWhole shifting tolerant keeps hs hcache
    rwa [hwhole] at hkeeping

end Stores

/-! ### Sessions -/

namespace Session

open Stores (CacheSteps Crossed)

variable {ρ : Type} [Remote ρ] {holds : ρ → Prop} {held : ρ → String → Option Tree} {good : Record → Prop}
  {conversation : String} {s s' : Session ρ (Scripted Memory)} {stores stores' : Stores ρ (Scripted Memory)}
  {op : Operation}

/-- Every record of the cache is good and stored under its own key. -/
structure Tagged (holds : ρ → Prop) (good : Record → Prop) (stores : Stores ρ (Scripted Memory)) : Prop where
  /-- The remote store is in one of the states in which it is shifting. -/
  holds_remote : holds stores.remote
  /-- The records are stored under their own keys, and are good. -/
  cached : ∀ (k : Key) (r : Record), stores.cache.inner.records[k]? = some r → r.key = k ∧ good r

namespace Tagged

omit [Remote ρ] in
lemma mono {good' : Record → Prop} (h : Tagged holds good stores) (himp : ∀ r, good r → good' r) :
    Tagged holds good' stores :=
  ⟨h.holds_remote, fun k r hr => (h.cached k r hr).imp_right (himp r)⟩

omit [Remote ρ] in
lemma atTime (h : Tagged holds good s.stores) (now : Int64) : Tagged holds good (s.atTime now).stores :=
  ⟨h.holds_remote, h.cached⟩

omit [Remote ρ] in
/-- Calls on the cache that write good records leave all records good. -/
lemma of_cacheSteps (h : Tagged holds good stores)
    (hsteps : CacheSteps conversation (fun records => ∀ r ∈ records, r.conversation = conversation ∧ good r)
      stores stores') : Tagged holds good stores' :=
  ⟨hsteps.remote_eq.symm ▸ h.holds_remote, (keeps_good conversation good).scripted.of_cacheSteps hsteps h.cached⟩

omit [Remote ρ] in
/-- Clearing the cache leaves all records good. -/
lemma callClear (h : Tagged holds good stores) (degraded : Bool) :
    Tagged holds good { stores.callClear.2 with degraded := degraded } :=
  ⟨h.holds_remote, (keeps_good "" good).scripted.clear _ h.cached⟩

variable (shifting : Shifting holds held) (tolerant : Tolerant good)
include shifting tolerant

/-- If crossed records are good, all are good after synchronising. -/
lemma refresh (h : Tagged holds good stores)
    (hcrossed : ∀ r t t', Crossed held stores (stores.refresh conversation).2 r t t' → good r) :
    Tagged holds good (stores.refresh conversation).2 :=
  ⟨(Stores.syncSteps_refresh stores conversation).holds_of_shifting shifting h.holds_remote,
    Stores.keeping_refresh shifting tolerant (keeps_good conversation good).scripted h.holds_remote h.cached
      hcrossed⟩

/-- If crossed records are good, all are good after a step. -/
lemma step (h : Tagged holds good s.stores) (hstep : Step conversation s op s')
    (hkeyed : IdMap.Keyed Message.id s.tree.messages)
    (hcrossed : ∀ r t t', Crossed held s.stores s'.stores r t t' → good r) : Tagged holds good s'.stores := by
  -- What a step caches by itself is under its own fingerprint.
  have hshown : ∀ {stores}, CacheSteps conversation (OfShown conversation s') s.stores stores →
      Tagged holds good stores := by
    intro stores hsteps
    refine h.of_cacheSteps (hsteps.mono fun records hrecords r hr => ?_)
    obtain ⟨id, m, now, -, rfl⟩ := hrecords r hr
    exact ⟨rfl, tolerant.of_own _ rfl⟩
  cases hstep.storesStep hkeyed with
  | syncs hsyncs =>
    rw [hsyncs] at hcrossed ⊢
    exact h.refresh shifting tolerant hcrossed
  | clears degraded hclears =>
    rw [hclears]
    exact h.callClear degraded
  | caches hcaches => exact hshown hcaches
  | saves cached hcaches hsaves =>
    have hcached := hshown hcaches
    rw [hsaves]
    exact ⟨shifting.save conversation s'.saveRequest cached.remote hcached.holds_remote, hcached.cached⟩

/-- If crossed records are good, all are good after a move. -/
lemma move (h : Tagged holds good s.stores) (hmove : Move s op s')
    (hkeyed : IdMap.Keyed Message.id s.tree.messages)
    (hcrossed : ∀ r t t', Crossed held s.stores s'.stores r t t' → good r) : Tagged holds good s'.stores := by
  cases hmove with
  | remain _ _ hstep => exact h.step shifting tolerant hstep hkeyed hcrossed
  | refuse => exact h
  | select => exact h
  | noteRequest => exact h
  | startNew => exact h
  | recoverCache =>
    obtain ⟨degraded, hstores⟩ := stores_recoverCache s
    rw [hstores]
    exact h.callClear degraded
  | @switch conversation _ tree report stores hrefresh =>
    have hsynced : Tagged holds good (s.stores.refresh conversation).2 := by
      refine h.refresh shifting tolerant fun r t t' hr => hcrossed r t t' ?_
      rwa [hrefresh] at hr
    rwa [hrefresh] at hsynced
  | @switchOffline conversation _ e stores hrefresh =>
    have hread : ∀ batch, CacheSteps conversation batch stores (stores.cachedRecords conversation).2 :=
      fun _ => (CacheSteps.refl stores).cachedRecords
    have hsynced : Tagged holds good (s.stores.refresh conversation).2 := by
      refine h.refresh shifting tolerant fun r t t' hr => hcrossed r t t' ?_
      rw [hrefresh] at hr
      exact hr.mono (hread fun _ => True).calls_isPrefix
    rw [hrefresh] at hsynced
    exact hsynced.of_cacheSteps (hread _)

end Tagged

/-! ### Runs -/

/-- One of the operations has crossed the record. -/
def CrossedAlong (held : ρ → String → Option Tree) (start : Session ρ (Scripted Memory)) (events : List Event)
    (r : Record) : Prop :=
  ∃ before e after t t', events = before ++ e :: after ∧
    Crossed held ((start.runTimed before).atTime e.now).stores (start.runTimed (before ++ [e])).stores r t t'

/-- What has been crossed remains so when the run goes on. -/
lemma CrossedAlong.concat {start : Session ρ (Scripted Memory)} {events : List Event} {r : Record}
    (h : CrossedAlong held start events r) (e : Event) : CrossedAlong held start (events ++ [e]) r := by
  obtain ⟨before, e', after, t, t', rfl, hcrossed⟩ := h
  exact ⟨before, e', after ++ [e], t, t', by simp, hcrossed⟩

/-- What is under its own fingerprint or was crossed on the way depends on nothing but body and fingerprint. -/
lemma tolerant_crossedAlong (held : ρ → String → Option Tree) (start : Session ρ (Scripted Memory))
    (events : List Event) :
    Tolerant fun r => r.fingerprint = r.message.fingerprint ∨ CrossedAlong held start events r where
  of_own _ hr := Or.inl hr
  of_alike r r' halike hr := by
    rcases hr with hr | ⟨before, e, after, t, t', hsplit, hcrossed⟩
    · left
      rw [halike.fingerprint_eq, hr, halike.sameBody.fingerprint_eq]
    · exact Or.inr ⟨before, e, after, t, t', hsplit, hcrossed.of_alike halike⟩

/-- Whatever is done with a session that starts with an empty cache, on a remote store that may hold something else
at every call, and whatever fails: every record of the cache is under the fingerprint of its own message, unless
the message has changed on the remote store between the call for the outline and the call for bodies of one of the
operations. The record then has the fingerprint from before and the body from after. -/
theorem fingerprint_eq_or_crossed (shifting : Shifting holds held) (stores : Stores ρ (Scripted Memory))
    (hholds : holds stores.remote) (hempty : stores.cache.inner.records = ∅) (settings : Settings)
    (events : List Event) :
    let start : Session ρ (Scripted Memory) := { stores := stores, settings := settings }
    ∀ (k : Key) (r : Record), (start.runTimed events).stores.cache.inner.records[k]? = some r →
      r.fingerprint = r.message.fingerprint ∨ CrossedAlong held start events r := by
  intro start
  have hsound : Sound start := Sound.of_eq_empty rfl
  have htagged : Tagged holds (fun r => r.fingerprint = r.message.fingerprint ∨ CrossedAlong held start events r)
      (start.runTimed events).stores := by
    induction events using List.reverseRecOn with
    | nil =>
      refine ⟨hholds, fun k r hr => ?_⟩
      change stores.cache.inner.records[k]? = some r at hr
      rw [hempty, Std.ExtTreeMap.getElem?_empty] at hr
      cases hr
    | append_singleton events e ih =>
      have hs := (hsound.runTimed events).atTime e.now
      have hbefore := (ih.mono fun r hr => hr.imp_right fun h => h.concat e).atTime e.now
      have hmove := hs.move_after e.op
      rw [← runTimed_concat] at hmove
      refine hbefore.move shifting (tolerant_crossedAlong held start (events ++ [e])) hmove hs.linked.keyed
        fun r t t' hcrossed => ?_
      exact Or.inr ⟨events, e, [], t, t', rfl, hcrossed⟩
  exact fun k r hr => (htagged.cached k r hr).2

/-- A question that is edited after the first call on the remote store. -/
def editedStores : Stores Remote.Exchanged (Scripted Memory) :=
  let question := Message.ask "Why?" "a" 1
  let edited := { question with content := "Why not?" }
  { remote :=
      { archive := (∅ : Remote.Archive).insert "c" (Tree.ofMessages [question] none)
        later := [(∅ : Remote.Archive).insert "c" (Tree.ofMessages [edited] none)] }
    cache := { inner := {} } }

/-- In each of its states the server has every message under its own id. -/
lemma keyed_editedStores : editedStores.remote.Keyed := by
  intro archive harchive
  rcases List.mem_cons.mp harchive with rfl | harchive
  · exact Remote.Archive.keyedAt_ofMessages "c" _ none
  · rw [List.mem_singleton.mp harchive]
    exact Remote.Archive.keyedAt_ofMessages "c" _ none

/-- When the conversation is loaded, the edited question is cached under the fingerprint from before. -/
lemma exists_of_load_edited :
    let start : Session Remote.Exchanged (Scripted Memory) := { stores := editedStores }
    ∃ r, (start.runTimed [⟨1, .load "c"⟩]).stores.cache.inner.records[(⟨"c", "a"⟩ : Key)]? = some r ∧
      r.fingerprint ≠ r.message.fingerprint := by
  intro start
  have hany : ((start.runTimed [⟨1, .load "c"⟩]).stores.cache.inner.records[(⟨"c", "a"⟩ : Key)]?).any
      (fun r => r.fingerprint ≠ r.message.fingerprint) = true := by decide +kernel
  obtain ⟨r, hr, hne⟩ := (Option.any_eq_true _ _).mp hany
  exact ⟨r, hr, of_decide_eq_true hne⟩

/-- The record of the edited question was crossed by loading the conversation. -/
theorem crossedAlong_load_edited :
    let start : Session Remote.Exchanged (Scripted Memory) := { stores := editedStores }
    ∃ r, (start.runTimed [⟨1, .load "c"⟩]).stores.cache.inner.records[(⟨"c", "a"⟩ : Key)]? = some r ∧
      CrossedAlong Remote.Exchanged.held start [⟨1, .load "c"⟩] r := by
  intro start
  obtain ⟨r, hr, hne⟩ := exists_of_load_edited
  have hcases := fingerprint_eq_or_crossed Remote.Exchanged.shifting editedStores keyed_editedStores rfl {}
    [⟨1, .load "c"⟩] _ r hr
  exact ⟨r, hr, hcases.resolve_left hne⟩

/-- A remote store that answers every call correctly, an empty cache, and yet after loading the conversation there is
a record that is not under the fingerprint of its message. -/
theorem fingerprint_ne_of_load_edited :
    let start : Session Remote.Exchanged (Scripted Memory) := { stores := editedStores }
    Shifting Remote.Exchanged.Keyed Remote.Exchanged.held ∧ editedStores.remote.Keyed ∧
      editedStores.cache.inner.records = ∅ ∧
      ∃ (k : Key) (r : Record), (start.runTimed [⟨1, .load "c"⟩]).stores.cache.inner.records[k]? = some r ∧
        r.fingerprint ≠ r.message.fingerprint := by
  intro start
  obtain ⟨r, hr⟩ := exists_of_load_edited
  exact ⟨Remote.Exchanged.shifting, keyed_editedStores, rfl, _, r, hr⟩

end Session

end DialogueSync.Client
