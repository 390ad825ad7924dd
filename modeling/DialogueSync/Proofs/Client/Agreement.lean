import DialogueSync.Cache.Scripted
import DialogueSync.Proofs.Cache.Memory
import DialogueSync.Proofs.Client.Pass
import DialogueSync.Proofs.Remote.Honest
import DialogueSync.Proofs.Tree.WellFormed

/-!
# Agreement with a full fetch

Against a remote store that is honest about a well-formed tree, synchronising gives that tree, and so does a
full fetch. It does not matter in which order the records of the cache, the fetched bodies and the records
that were read first are used, since all of them are `Faithful`: a record with the fingerprint that the tree
has for its id carries the body that the tree has. Whatever the client does to a cache in memory keeps its
records faithful, behind a schedule of failures too (`keeps_memory`, `Keeps.scripted`).
-/

namespace DialogueSync.Client.Stores

open Cache (Memory Record Scripted)
open Message (SameBody)
open Remote (Honest)

variable {ρ κ : Type} {conversation : String} {t : Tree}

/-! ### Faithful records -/

/-- If the record has the fingerprint that the tree has for its id, it carries the body from there. -/
def Faithful (t : Tree) (r : Record) : Prop :=
  ∀ m, t.get? r.id = some m → r.fingerprint = m.fingerprint → SameBody r.message m

instance (t : Tree) (r : Record) : Decidable (Faithful t r) :=
  inferInstanceAs (Decidable (∀ m ∈ t.get? r.id, r.fingerprint = m.fingerprint → SameBody r.message m))

/-- What is true of every record of a cache in memory with the key that it is stored under is kept if it is true of
all good records with their own keys. -/
lemma keeps_records {P : Cache.Key → Record → Prop} {good : Record → Prop} (hput : ∀ r, good r → P r.key r)
    (hread : ∀ id r, P ⟨conversation, id⟩ r → good r) :
    Keeps (fun m : Memory => ∀ (k : Cache.Key) (r : Record), m.records[k]? = some r → P k r) conversation
      good where
  read m hm := hm
  good_of_read m records hm hrecords r hr := by
    obtain rfl := Except.ok.inj hrecords
    obtain ⟨id, hid⟩ := Memory.mem_recordsOf_iff.mp hr
    exact hread id r (hm _ r hid)
  put m records hm hrecords := by
    by_cases hfits : (m.written records).Fits
    · rw [Memory.cache_put_of_fits hfits]
      intro k r hr
      rcases Memory.mem_or_of_getElem?_insertAll hr with ⟨hmem, rfl⟩ | ⟨-, hold⟩
      · exact hput r (hrecords r hmem)
      · exact hm k r hold
    · rw [Memory.cache_put_of_not_fits hfits]
      exact hm
  drop m hm k r hr := hm k r (Memory.getElem?_of_drop hr).1
  clear m hm k r hr := by
    change (∅ : Std.ExtTreeMap Cache.Key Record)[k]? = some r at hr
    rw [Std.ExtTreeMap.getElem?_empty] at hr
    cases hr

/-- A cache in memory of which the records of a conversation are good keeps that property. -/
lemma keeps_memory (conversation : String) (good : Record → Prop) :
    Keeps (fun k : Memory => ∀ r ∈ k.recordsOf conversation, good r) conversation good := by
  have hiff : ∀ m : Memory, (∀ r ∈ m.recordsOf conversation, good r) ↔
      ∀ (k : Cache.Key) (r : Record), m.records[k]? = some r → k.conversation = conversation → good r := by
    intro m
    constructor
    · rintro h ⟨_, id⟩ r hr rfl
      exact h r (Memory.mem_recordsOf_iff.mpr ⟨id, hr⟩)
    · intro h r hr
      obtain ⟨id, hid⟩ := Memory.mem_recordsOf_iff.mp hr
      exact h _ r hid rfl
  simp only [hiff]
  exact keeps_records (fun _ hr _ => hr) fun _ _ h => h rfl

/-- A cache in memory stays keyed whatever is done to it. -/
lemma keeps_keyed (conversation : String) :
    Keeps Memory.Keyed conversation fun _ => True :=
  keeps_records (P := fun k r => r.key = k) (fun _ _ => rfl) fun _ _ _ => trivial

/-- A call behind a schedule fails or goes to the cache there. -/
lemma pass_cases {α : Type} (failure : Option Failure) (call : κ → Except Failure α × κ)
    (k : Scripted κ) :
    (∃ e, Scripted.pass failure call k = (.error e, k)) ∨
      Scripted.pass failure call k = ((call k.inner).1, { k with inner := (call k.inner).2 }) := by
  cases failure with
  | some e => exact Or.inl ⟨e, rfl⟩
  | none => exact Or.inr rfl

/-- A call behind a schedule that succeeds has gone to the cache there. -/
lemma of_pass_ok {α : Type} {failure : Option Failure} {call : κ → Except Failure α × κ} {k : Scripted κ}
    {reply : α} (h : (Scripted.pass failure call k).1 = .ok reply) :
    (call k.inner).1 = .ok reply ∧ (Scripted.pass failure call k).2.inner = (call k.inner).2 := by
  rcases pass_cases failure call k with ⟨e, hpass⟩ | hpass
  · rw [hpass] at h
    cases h
  · rw [hpass] at h ⊢
    exact ⟨h, rfl⟩

/-- A call on a scripted cache keeps what the same call keeps of the cache behind it. -/
lemma inner_pass {α : Type} {holds : κ → Prop} (failure : Option Failure)
    {call : κ → Except Failure α × κ} {k : Scripted κ} (hk : holds k.inner)
    (hcall : holds (call k.inner).2) : holds (Scripted.pass failure call k).2.inner := by
  rcases pass_cases failure call k with ⟨e, h⟩ | h
  · rw [h]
    exact hk
  · rw [h]
    exact hcall

variable [Cache κ]

/-- A cache behind a schedule of failures keeps what it keeps without. -/
lemma Keeps.scripted {holds : κ → Prop} {good : Record → Prop} (h : Keeps holds conversation good) :
    Keeps (fun k : Scripted κ => holds k.inner) conversation good where
  read _ hk := inner_pass _ hk (h.read _ hk)
  good_of_read _ records hk hread := h.good_of_read _ records hk (of_pass_ok hread).1
  put _ records hk hrecords := inner_pass _ hk (h.put _ records hk hrecords)
  drop _ hk := inner_pass _ hk (h.drop _ hk)
  clear _ hk := inner_pass _ hk (h.clear _ hk)

/-! ### Asking an honest store -/

variable [Remote ρ] {holds : ρ → Prop} {s s' : Stores ρ κ}

omit [Cache κ] in
/-- The outline of an honest store comes. -/
lemma askOutline_of_honest (honest : Honest holds conversation t) (hs : holds s.remote) :
    (s.askOutline conversation).1 = .ok t.outline ∧
      holds (s.askOutline conversation).2.remote := by
  obtain ⟨a, ha, hholds⟩ := honest.outline s.remote hs
  unfold askOutline
  rw [ha]
  exact ⟨rfl, hholds⟩

omit [Cache κ] in
/-- The bodies of an honest store come. -/
lemma askBodies_of_honest (honest : Honest holds conversation t) (hs : holds s.remote)
    (ids : List String) :
    ∃ reply, (s.askBodies conversation ids).1 = .ok reply ∧ t.Supplies ids reply ∧
      holds (s.askBodies conversation ids).2.remote := by
  obtain ⟨reply, a, ha, hreply, hholds⟩ := honest.bodies s.remote ids hs
  unfold askBodies
  rw [ha]
  exact ⟨reply, rfl, hreply, hholds⟩

omit [Cache κ] in
/-- Fetching bodies that an honest store has succeeds. -/
lemma fetch_of_honest (honest : Honest holds conversation t) (hs : holds s.remote)
    {ids : List String} (hids : ∀ id ∈ ids, t.contains id) :
    ∃ fetched s', s.fetch conversation t.outline ids = (.ok fetched, s') := by
  obtain ⟨reply, hask, hreply, -⟩ := askBodies_of_honest honest hs ids
  have hmissing : (ids.filter fun id => !(accept t.outline reply).contains id) = [] := by
    refine List.filter_eq_nil_iff.mpr fun id hid => ?_
    have hmem : id ∈ accept t.outline reply :=
      mem_accept_iff.mpr ⟨Tree.mem_outline_iff.mpr (hids id hid),
        hreply.exists_mem id hid (hids id hid)⟩
    simpa using hmem
  unfold fetch
  split
  · exact ⟨_, _, rfl⟩
  · rw [show s.askBodies conversation ids = (.ok reply, (s.askBodies conversation ids).2) from
      Prod.ext hask rfl]
    simp only [hmissing]
    exact ⟨_, _, rfl⟩

/-- A differential pass against an honest store succeeds. -/
lemma exists_pass_of_honest (honest : Honest holds conversation t) (hs : holds s.remote) :
    ∃ s', Nonempty (Pass s s' conversation) := by
  obtain ⟨hask, hasked⟩ := askOutline_of_honest honest hs
  have hremote : ((s.askOutline conversation).2.takeStock conversation t.outline).2.remote =
      (s.askOutline conversation).2.remote :=
    (CacheSteps.of_takeStock (fun _ => True) _ t.outline).remote_eq
  obtain ⟨fetched, supplied, hfetch⟩ := fetch_of_honest honest (hremote ▸ hasked) fun id hid =>
    Tree.mem_outline_iff.mp (mem_nodes_of_mem_wanted hid)
  exact exists_pass_of_fetch (Prod.ext hask rfl) hfetch

namespace Pass

variable (p : Pass s s' conversation) (honest : Honest holds conversation t) (hs : holds s.remote)
include p honest hs

/-- The outline of the pass is that of the tree. -/
lemma outline_eq : p.outline = t.outline ∧ holds p.asked.remote := by
  have h := askOutline_of_honest honest hs
  rw [p.askOutline_eq] at h
  exact ⟨Except.ok.inj h.1, h.2⟩

/-- The remote store still keeps the tree when stock has been taken of the cache. -/
lemma holds_stocked : holds p.stocked.remote := by
  rw [(p.cacheSteps_stocked fun _ => True).remote_eq, (p.cacheSteps_asked fun _ => True).remote_eq]
  exact (p.outline_eq honest hs).2

lemma holds_end : holds s'.remote := by
  have hcached := p.cacheSteps_cached (fun _ => True) trivial
  have hchecked := p.cacheSteps_checked fun _ => True
  have hend := p.cacheSteps_end (fun _ => True) trivial
  rw [hend.remote_eq, hchecked.remote_eq, hcached.remote_eq]
  rcases fetch_cases p.fetch_eq with ⟨-, -, heq⟩ | ⟨-, reply, hask, -⟩
  · rw [heq]
    exact p.holds_stocked honest hs
  · obtain ⟨_, -, -, hsupplied⟩ := askBodies_of_honest honest (p.holds_stocked honest hs) p.wanted
    rwa [wanted, hask] at hsupplied

/-- The fetched bodies are those of the tree. -/
lemma sameBody_of_fetched {id : String} {m m' : Message} (hm : p.fetched[id]? = some m)
    (hm' : t.get? id = some m') : SameBody m m' := by
  obtain ⟨rfl, reply, hask, src, hsrc, rfl⟩ := p.exists_of_fetched hm
  obtain ⟨reply', hask', hreply, -⟩ :=
    askBodies_of_honest honest (p.holds_stocked honest hs) p.wanted
  rw [hask] at hask'
  obtain rfl := Except.ok.inj hask'
  rw [Outline.id_link] at hm'
  exact (Outline.sameBody_link p.outline src).symm.trans (hreply.sameBody src hsrc m' hm')

/-- The records that are written for the fetched bodies are faithful. -/
lemma faithful_of_mem_batch : ∀ r ∈ p.batch, Faithful t r := by
  intro r hr m' hm' _
  obtain ⟨n, m, -, hm, -, rfl⟩ := p.mem_batch_iff.mp hr
  exact p.sameBody_of_fetched honest hs hm hm'

/-- If only faithful records are read, the bodies that are put together are the messages of the tree. -/
lemma bodies_eq (hheld : ∀ r ∈ (p.asked.cachedRecords conversation).1.getD [], Faithful t r)
    (hreread : ∀ r ∈ p.reread.getD [], Faithful t r) : p.assembly.bodies = t.messages := by
  obtain ⟨houtline, -⟩ := p.outline_eq honest hs
  refine Std.ExtTreeMap.ext_getElem? fun {id} => ?_
  cases hm : t.messages[id]? with
  | none =>
    refine Std.ExtTreeMap.getElem?_eq_none fun hid => ?_
    rw [p.mem_bodies_iff, houtline, Tree.mem_outline_iff] at hid
    obtain ⟨m, hm'⟩ := mem_iff_exists_getElem?.mp hid
    rw [hm] at hm'
    cases hm'
  | some m =>
    have hn : p.outline.nodes[id]? = some (Tree.nodeOf m) := by
      rw [houtline, Tree.getElem?_outline, Tree.get?, hm, Option.map_some]
    obtain ⟨body, hbody⟩ := mem_iff_exists_getElem?.mp
      (p.mem_bodies_iff.mpr (mem_iff_exists_getElem?.mpr ⟨_, hn⟩))
    obtain ⟨n, b, hn', hb, rfl⟩ := p.exists_bodyOf_of_bodies hbody
    obtain rfl := Option.some.inj (hn'.symm.trans hn)
    have hid : b.message.id = id := p.id_eq_of_bodyOf hn hb
    -- Wherever the body comes from, it is the one that the tree has.
    have hsame : SameBody b.message m := by
      rcases p.bodyOf_cases hn hb with ⟨r, hmem, hrid, hcur, rfl⟩ | ⟨src, hsrc, rfl⟩ |
        ⟨r, hr, hcur, rfl⟩
      · exact hreread r hmem m (hrid ▸ hm) hcur
      · exact p.sameBody_of_fetched honest hs hsrc hm
      · obtain ⟨hmem, hrid⟩ := p.mem_of_held hr
        exact hheld r hmem m (hrid ▸ hm) hcur
    rw [hbody, houtline, Tree.link_outline_eq (hid ▸ hm) hsame]

end Pass

/-! ### The tree -/

/-- All bodies of a tree and no others, linked to its outline, are its messages. -/
lemma collect_link_eq {bodies : List Message} (hbodies : t.Supplies t.messages.keys bodies)
    (hmem : ∀ m ∈ bodies, t.contains m.id) :
    IdMap.collect Message.id (bodies.map t.outline.link) = t.messages := by
  have hlink : ∀ m ∈ bodies, t.get? m.id = some (t.outline.link m) := by
    intro m hm
    obtain ⟨m', hm'⟩ := mem_iff_exists_getElem?.mp (hmem m hm)
    rw [Tree.link_outline_eq hm' (hbodies.sameBody m hm m' hm')]
    exact hm'
  refine IdMap.collect_eq (fun m hm => ?_) fun id hid => ?_
  · obtain ⟨src, hsrc, rfl⟩ := List.mem_map.mp hm
    rw [Outline.id_link]
    exact hlink src hsrc
  · obtain ⟨src, hsrc, rfl⟩ := hbodies.exists_mem id (Std.ExtTreeMap.mem_keys.mpr hid) hid
    exact ⟨_, List.mem_map_of_mem hsrc, Outline.id_link _ _⟩

/-- A snapshot with the outline of a linked tree and all its bodies gives the tree with its selection repaired. -/
lemma treeOf_eq_repair {full : Snapshot} (ht : Tree.Linked t.messages) (houtline : full.outline = t.outline)
    (hbodies : t.Supplies t.messages.keys full.bodies) (hmem : ∀ m ∈ full.bodies, t.contains m.id) :
    treeOf full = t.repair := by
  rw [treeOf, houtline]
  exact ht.ofMessages_eq_repair (collect_link_eq hbodies hmem)

/-- A snapshot with the outline of a tree and all its bodies gives the tree. -/
lemma treeOf_eq {full : Snapshot} (ht : t.WellFormed) (houtline : full.outline = t.outline)
    (hbodies : t.Supplies t.messages.keys full.bodies) (hmem : ∀ m ∈ full.bodies, t.contains m.id) :
    treeOf full = t :=
  (treeOf_eq_repair ht.toLinked houtline hbodies hmem).trans ht.repair_eq_self

/-- A full fetch from an honest store gives the tree. -/
lemma refreshWhole_of_honest (honest : Honest holds conversation t) (ht : t.WellFormed)
    (hs : holds s.remote) :
    ∃ report s', s.refreshWhole conversation = (.ok (t, report), s') := by
  obtain ⟨full, a, ha, houtline, hbodies, hmem, -⟩ := honest.snapshot s.remote hs
  have htree := treeOf_eq ht houtline hbodies hmem
  unfold refreshWhole askSnapshot
  simp only [ha, htree]
  exact ⟨_, _, rfl⟩

/-- Synchronising with an honest store gives the tree if the cache keeps faithful records faithful. -/
lemma refresh_of_honest {keeping : κ → Prop} (honest : Honest holds conversation t)
    (ht : t.WellFormed) (keeps : Keeps keeping conversation (Faithful t)) (hs : holds s.remote)
    (hcache : keeping s.cache) :
    ∃ report s', s.refresh conversation = (.ok (t, report), s') := by
  cases hdegraded : s.degraded with
  | true =>
    rw [refresh, if_pos hdegraded]
    exact refreshWhole_of_honest honest ht hs
  | false =>
    obtain ⟨s', ⟨p⟩⟩ := exists_pass_of_honest honest hs
    obtain ⟨houtline, -⟩ := p.outline_eq honest hs
    obtain ⟨hasked, hsupplied⟩ := p.keeping_supplied keeps hcache
    have hcached := keeps.of_cacheSteps
      (p.cacheSteps_cached _ (p.faithful_of_mem_batch honest hs)) hsupplied
    have hheld := fun r => keeps.good_of_cachedRecords (r := r) hasked
    have hreread : ∀ r ∈ p.reread.getD [], Faithful t r := by
      intro r hr
      refine keeps.good_of_cachedRecords hcached ?_
      rwa [p.cachedRecords_cached]
    have hbodies := p.bodies_eq honest hs hheld hreread
    have htree : p.tree = t := by
      rw [Pass.tree, hbodies, houtline]
      exact ht.ofMessages_eq (IdMap.collect_values ht.keyed)
    rw [p.refresh_eq hdegraded, htree]
    exact ⟨_, _, rfl⟩

/-- Synchronising a conversation with a remote store that is honest about the tree of a history gives
exactly this tree, as a full fetch does: whatever records are cached, as long as those of the conversation
that have the fingerprint of a message carry its body, whatever the cache is limited to, which of its calls
fail and whether it has been given up. -/
theorem refresh_eq_refreshWhole {h : History} (honest : Honest holds conversation (Tree.ofHistory h))
    (s : Stores ρ (Scripted Memory)) (hs : holds s.remote)
    (hcache : ∀ r ∈ s.cache.inner.recordsOf conversation, Faithful (Tree.ofHistory h) r) :
    ∃ report report' s' s'', s.refresh conversation = (.ok (Tree.ofHistory h, report), s') ∧
      s.refreshWhole conversation = (.ok (Tree.ofHistory h, report'), s'') := by
  have ht := Tree.wellFormed_ofHistory h
  have keeps := (keeps_memory conversation (Faithful (Tree.ofHistory h))).scripted
  obtain ⟨report, s', hrefresh⟩ := refresh_of_honest honest ht keeps hs hcache
  obtain ⟨report', s'', hwhole⟩ := refreshWhole_of_honest honest ht hs
  exact ⟨report, report', s', s'', hrefresh, hwhole⟩

/-- A question and its answer. -/
def exchange : History where
  messages := IdMap.collect Message.id
    [Message.ask "Why?" "a" 1, { Message.await "model" "b" 2 with parent := some "a" }]
  current := some "b"

/-- The exchange in an archive, and a cache beside it. -/
def withExchange {κ : Type} (cache : κ) : Stores Remote.Archive κ where
  remote := (∅ : Remote.Archive).store "c" exchange
  cache := cache

/-- The archive with the exchange is honest about it. -/
lemma honest_withExchange {κ : Type} (cache : κ) :
    Honest (fun a : Remote.Archive => a["c"]? = some (Tree.ofHistory exchange)) "c"
        (Tree.ofHistory exchange) ∧
      (withExchange cache).remote["c"]? = some (Tree.ofHistory exchange) :=
  ⟨Remote.Archive.honest (Tree.wellFormed_ofHistory exchange).keyed "c",
    Remote.Archive.getElem?_store ∅ "c" exchange⟩

/-- A cache that holds the question, has no room for more, and at first fails in every kind of call. -/
def failing : Scripted Memory where
  inner := ({ quota := some 1 } : Memory).written [Record.own "c" (Message.ask "Why?" "a" 1) 0]
  reads := [none, some .cacheFull]
  puts := [some .cacheFull]
  drops := [some .cacheFull]
  clears := [some .cacheFull]

/-- The exchange comes out the same with a cache that fails. -/
theorem refresh_eq_refreshWhole_failing :
    ∃ report report' s' s'',
      (withExchange failing).refresh "c" = (.ok (Tree.ofHistory exchange, report), s') ∧
      (withExchange failing).refreshWhole "c" = (.ok (Tree.ofHistory exchange, report'), s'') :=
  refresh_eq_refreshWhole (honest_withExchange failing).1 (withExchange failing)
    (honest_withExchange failing).2 (by decide +kernel)

end DialogueSync.Client.Stores
