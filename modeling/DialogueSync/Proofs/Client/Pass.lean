import DialogueSync.Proofs.Client.Steps
import DialogueSync.Proofs.IdMap

/-!
# Differential passes

A differential pass that does not fail goes through the same states every time: the outline is asked for,
stock is taken of the cache, the wanted bodies are fetched and cached, the cache is read again, and what it
has lost is cached once more. `Pass` names these states and what is known in them.

Once the wanted bodies have come the pass cannot fail any more: every message of the outline has a body
(`Pass.mem_bodies_iff`), which is read back, in hand from the reply, or in hand from the first reading
(`bodyFor_cases`). So a pass succeeds exactly if a `Pass` exists (`exists_pass`, `Pass.refreshChanged_eq`), and
synchronising is such a pass or ends with a full fetch (`refresh_cases`).
-/

namespace DialogueSync.Client

open Cache (Record)

/-! ### What is wanted and what is there -/

section Bodies

variable {o : Outline} {held reloaded : IdMap Record} {fetched : IdMap Message}

/-- An id is wanted if it is one of the outline and no current record is held for it. -/
lemma mem_wanted_iff {id : String} :
    id ∈ wanted o held ↔
      ∃ n : Node, o.nodes[id]? = some n ∧ ∀ r : Record, held[id]? = some r → ¬ Current r n := by
  rw [wanted, Std.ExtTreeMap.mem_keys, mem_iff_exists_getElem?]
  refine exists_congr fun n => ?_
  rw [Std.ExtTreeMap.getElem?_filter', Option.filter_eq_some_iff]
  refine and_congr_right fun _ => ?_
  cases held[id]? <;> simp

/-- No id is asked for twice. -/
lemma nodup_wanted (o : Outline) (held : IdMap Record) : (wanted o held).Nodup :=
  Std.ExtTreeMap.nodup_keys

/-- Only ids of the outline are asked for. -/
lemma mem_nodes_of_mem_wanted {id : String} (h : id ∈ wanted o held) : id ∈ o.nodes := by
  obtain ⟨n, hn, -⟩ := mem_wanted_iff.mp h
  exact mem_iff_exists_getElem?.mpr ⟨n, hn⟩

/-- For an id of the outline that is not wanted a current record is held. -/
lemma exists_current_of_not_mem_wanted {id : String} {n : Node} (hn : o.nodes[id]? = some n)
    (h : id ∉ wanted o held) : ∃ r : Record, held[id]? = some r ∧ Current r n := by
  by_contra hnone
  refine h (mem_wanted_iff.mpr ⟨n, hn, fun r hr hcur => hnone ⟨r, hr, hcur⟩⟩)

/-- What an accepted body comes from. -/
lemma exists_of_getElem?_accept {reply : List Message} {id : String} {m : Message}
    (h : (accept o reply)[id]? = some m) : m.id = id ∧ ∃ src ∈ reply, m = o.link src := by
  obtain ⟨hm, hid⟩ := IdMap.mem_of_getElem?_collect h
  obtain ⟨src, hsrc, rfl⟩ := List.mem_map.mp hm
  exact ⟨hid, src, (List.mem_filter.mp hsrc).1, rfl⟩

/-- The bodies that are accepted are those of the reply that the outline knows. -/
lemma mem_accept_iff {reply : List Message} {id : String} :
    id ∈ accept o reply ↔ id ∈ o.nodes ∧ ∃ m ∈ reply, m.id = id := by
  rw [accept, IdMap.mem_collect]
  constructor
  · rintro ⟨m, hm, rfl⟩
    obtain ⟨src, hsrc, rfl⟩ := List.mem_map.mp hm
    obtain ⟨hmem, hnode⟩ := List.mem_filter.mp hsrc
    rw [Outline.id_link]
    exact ⟨Std.ExtTreeMap.contains_iff_mem.mp hnode, src, hmem, rfl⟩
  · rintro ⟨hnode, m, hm, rfl⟩
    refine ⟨o.link m, List.mem_map_of_mem (List.mem_filter.mpr ⟨hm, ?_⟩), Outline.id_link o m⟩
    exact Std.ExtTreeMap.contains_iff_mem.mpr hnode

/-- What a matching record is. -/
lemma current_of_getElem?_matching {records : List Record} {id : String} {r : Record} {n : Node}
    (h : (matching o records)[id]? = some r) (hn : o.nodes[id]? = some n) :
    r ∈ records ∧ r.id = id ∧ Current r n := by
  obtain ⟨hr, rfl⟩ := IdMap.mem_of_getElem?_collect h
  obtain ⟨hmem, hcur⟩ := List.mem_filter.mp hr
  rw [hn] at hcur
  exact ⟨hmem, rfl, by simpa using hcur⟩

/-- The three places where a body may come from. -/
lemma bodyFor_cases {id : String} {n : Node} {b : Body}
    (h : bodyFor reloaded fetched held id n = some b) :
    (∃ r : Record, reloaded[id]? = some r ∧ b = .stored r.message) ∨
      (∃ m : Message, fetched[id]? = some m ∧ b = .inHand m) ∨
      ∃ r : Record, held[id]? = some r ∧ Current r n ∧ b = .inHand r.message := by
  unfold bodyFor at h
  split at h
  next r hr => exact Or.inl ⟨r, hr, (Option.some.inj h).symm⟩
  next =>
    obtain ⟨m, hm, rfl⟩ := Option.map_eq_some_iff.mp h
    rcases Option.or_eq_some_iff.mp hm with hm | ⟨-, hm⟩
    · exact Or.inr (Or.inl ⟨m, hm, rfl⟩)
    · obtain ⟨r, hr, rfl⟩ := Option.map_eq_some_iff.mp hm
      obtain ⟨hheld, hcur⟩ := Option.filter_eq_some_iff.mp hr
      exact Or.inr (Or.inr ⟨r, hheld, by simpa using hcur, rfl⟩)

/-- A body is in hand only if the cache does not have it. -/
lemma not_mem_of_inHand {id : String} {n : Node} {m : Message}
    (h : bodyFor reloaded fetched held id n = some (.inHand m)) : id ∉ reloaded := by
  intro hid
  obtain ⟨r, hr⟩ := mem_iff_exists_getElem?.mp hid
  unfold bodyFor at h
  rw [hr] at h
  cases h

/-- If the wanted bodies have come, there is a body for every message of the outline. -/
lemma exists_bodyFor (hfetched : ∀ id ∈ wanted o held, id ∈ fetched) {id : String} {n : Node}
    (hn : o.nodes[id]? = some n) : ∃ b, bodyFor reloaded fetched held id n = some b := by
  rw [← Option.isSome_iff_exists]
  unfold bodyFor
  split
  · rfl
  · rw [Option.isSome_map, Option.isSome_or, Bool.or_eq_true]
    by_cases hid : id ∈ wanted o held
    · exact Or.inl (Std.ExtTreeMap.mem_iff_isSome_getElem?.mp (hfetched id hid))
    · obtain ⟨r, hr, hcur⟩ := exists_current_of_not_mem_wanted hn hid
      refine Or.inr ?_
      rw [hr, Option.filter_some, if_pos (by simpa using hcur)]
      rfl

/-- If the wanted bodies have come, what is put together has a body for exactly the ids of the outline. -/
lemma mem_bodies_assemble_iff (hfetched : ∀ id ∈ wanted o held, id ∈ fetched) (conversation : String) (now : Int64)
    {id : String} : id ∈ (assemble conversation o reloaded fetched held now).bodies ↔ id ∈ o.nodes := by
  rw [mem_iff_exists_getElem?, mem_iff_exists_getElem?, assemble, Std.ExtTreeMap.getElem?_filterMap']
  constructor
  · rintro ⟨m, hm⟩
    obtain ⟨n, hn, -⟩ := Option.bind_eq_some_iff.mp hm
    exact ⟨n, hn⟩
  · rintro ⟨n, hn⟩
    obtain ⟨b, hb⟩ : ∃ b, bodyFor reloaded fetched held id n = some b := exists_bodyFor hfetched hn
    exact ⟨o.link b.message, by rw [hn, Option.bind_some, hb, Option.map_some]⟩

end Bodies

namespace Stores

variable {ρ κ : Type}

/-! ### Taking stock -/

section Stock

variable [Cache κ]

/-- What is held is among the records that were read, under its own id. -/
lemma mem_of_takeStock {s : Stores ρ κ} {conversation : String} {o : Outline} {id : String}
    {r : Record} (h : (s.takeStock conversation o).1.held[id]? = some r) :
    r ∈ (s.cachedRecords conversation).1.getD [] ∧ r.id = id := by
  have hread : (Record.byId ((s.cachedRecords conversation).1.getD []))[id]? = some r := by
    unfold takeStock at h
    dsimp only at h
    split at h
    · split at h
      · simp at h
      · exact h
    · exact h
  exact IdMap.mem_of_getElem?_collect hread

end Stock

/-! ### Fetching -/

section Fetching

variable [Remote ρ]

/-- A request for bodies is one call. -/
lemma calls_askBodies {s s' : Stores ρ κ} {conversation : String} {ids : List String}
    {reply : Except Failure (List Message)} (h : s.askBodies conversation ids = (reply, s')) :
    s'.calls = s.calls ++ [.bodies conversation ids reply] := by
  unfold askBodies at h
  obtain ⟨hreply, hs'⟩ := Prod.mk.inj h
  rw [← hs', ← hreply]
  rfl

/-- A fetch that succeeds asks for nothing and brings nothing, or brings all that it asked for. -/
lemma fetch_cases {s s' : Stores ρ κ} {conversation : String} {o : Outline} {ids : List String}
    {fetched : IdMap Message} (h : s.fetch conversation o ids = (.ok fetched, s')) :
    ids = [] ∧ fetched = ∅ ∧ s' = s ∨
      ids ≠ [] ∧ ∃ reply, s.askBodies conversation ids = (.ok reply, s') ∧
        fetched = accept o reply ∧ ∀ id ∈ ids, id ∈ fetched := by
  unfold fetch at h
  split at h
  next hempty =>
    simp only [Prod.mk.injEq, Except.ok.injEq] at h
    exact Or.inl ⟨List.isEmpty_iff.mp hempty, h.1.symm, h.2.symm⟩
  next hempty =>
    refine Or.inr ⟨by simpa using hempty, ?_⟩
    split at h
    · cases h
    next reply t heq =>
      dsimp only at h
      split at h
      next hmissing =>
        simp only [Prod.mk.injEq, Except.ok.injEq] at h
        obtain ⟨rfl, rfl⟩ := h
        refine ⟨reply, heq, rfl, fun id hid => ?_⟩
        simpa using (List.filter_eq_nil_iff.mp (List.isEmpty_iff.mp hmissing)) id hid
      · cases h

end Fetching

/-! ### Passes -/

variable [Remote ρ] [Cache κ]

/-- The states of a differential pass that does not fail, and what is known in them. -/
structure Pass (s s' : Stores ρ κ) (conversation : String) where
  /-- The outline of the conversation. -/
  outline : Outline
  /-- What taking stock of the cache has settled. -/
  holdings : Holdings
  /-- The bodies that were fetched. -/
  fetched : IdMap Message
  /-- What was read from the cache in the end, if it could be read. -/
  reread : Option (List Record)
  /-- The state once the outline has come. -/
  asked : Stores ρ κ
  /-- The state once stock is taken. -/
  stocked : Stores ρ κ
  /-- The state once the bodies have come. -/
  supplied : Stores ρ κ
  /-- The state once the cache is read again. -/
  checked : Stores ρ κ
  askOutline_eq : s.askOutline conversation = (.ok outline, asked)
  takeStock_eq : asked.takeStock conversation outline = (holdings, stocked)
  fetch_eq : stocked.fetch conversation outline (wanted outline holdings.held) =
    (.ok fetched, supplied)
  reread_eq : (supplied.storeIf holdings.writable (fetchedRecords conversation outline
    (wanted outline holdings.held) fetched supplied.clock)).cachedRecords conversation =
      (reread, checked)
  end_eq : checked.storeIf holdings.writable (assemble conversation outline
    (matching outline (reread.getD [])) fetched holdings.held checked.clock).lost = s'

namespace Pass

variable {s s' : Stores ρ κ} {conversation : String} (p : Pass s s' conversation)

/-- The ids for which no current record was held. -/
def wanted : List String :=
  Client.wanted p.outline p.holdings.held

/-- The records that are written for the fetched bodies. -/
def batch : List Record :=
  fetchedRecords conversation p.outline p.wanted p.fetched p.supplied.clock

/-- The state once the fetched bodies are cached. -/
def cached : Stores ρ κ :=
  p.supplied.storeIf p.holdings.writable p.batch

/-- What the pass puts together. -/
def assembly : Assembly :=
  assemble conversation p.outline (matching p.outline (p.reread.getD [])) p.fetched
    p.holdings.held p.checked.clock

/-- The tree of the conversation. -/
def tree : Tree :=
  Tree.ofMessages p.assembly.bodies.values p.outline.current

/-- The report of the pass. -/
def report : Report :=
  ⟨.differential, p.fetched.size, p.holdings.stale, p.tree.size⟩

/-- The body that the pass has for a node. -/
def bodyOf (id : String) (n : Node) : Option Body :=
  bodyFor (matching p.outline (p.reread.getD [])) p.fetched p.holdings.held id n

/-- All that was asked for has been fetched. -/
lemma mem_fetched : ∀ id ∈ p.wanted, id ∈ p.fetched := by
  rcases fetch_cases p.fetch_eq with ⟨hnone, -, -⟩ | ⟨-, -, -, -, hall⟩
  · rw [wanted, hnone]
    simp
  · exact hall

/-- There is a body for each node. -/
lemma exists_bodyOf {id : String} {n : Node} (hn : p.outline.nodes[id]? = some n) :
    ∃ b, p.bodyOf id n = some b :=
  exists_bodyFor p.mem_fetched hn

/-- A body was read in the end, or fetched, or held when stock was taken. -/
lemma bodyOf_cases {id : String} {n : Node} {b : Body} (hn : p.outline.nodes[id]? = some n)
    (h : p.bodyOf id n = some b) :
    (∃ r ∈ p.reread.getD [], r.id = id ∧ Current r n ∧ b = .stored r.message) ∨
      (∃ m : Message, p.fetched[id]? = some m ∧ b = .inHand m) ∨
      ∃ r : Record, p.holdings.held[id]? = some r ∧ Current r n ∧ b = .inHand r.message := by
  rcases bodyFor_cases h with ⟨r, hr, hb⟩ | h
  · obtain ⟨hmem, hid, hcur⟩ := current_of_getElem?_matching hr hn
    exact Or.inl ⟨r, hmem, hid, hcur, hb⟩
  · exact Or.inr h

/-- Under each id of the outline is the body for its node, linked as the outline says. -/
lemma getElem?_bodies (id : String) :
    p.assembly.bodies[id]? = p.outline.nodes[id]?.bind fun n =>
      (p.bodyOf id n).map fun b => p.outline.link b.message := by
  rw [assembly, assemble, Std.ExtTreeMap.getElem?_filterMap']
  rfl

/-- There is a body for exactly the ids of the outline. -/
lemma mem_bodies_iff {id : String} : id ∈ p.assembly.bodies ↔ id ∈ p.outline.nodes :=
  mem_bodies_assemble_iff p.mem_fetched conversation p.checked.clock

/-- What a body that is put together is linked from. -/
lemma exists_bodyOf_of_bodies {id : String} {m : Message} (h : p.assembly.bodies[id]? = some m) :
    ∃ (n : Node) (b : Body), p.outline.nodes[id]? = some n ∧ p.bodyOf id n = some b ∧
      m = p.outline.link b.message := by
  rw [getElem?_bodies] at h
  obtain ⟨n, hn, h⟩ := Option.bind_eq_some_iff.mp h
  obtain ⟨b, hb, rfl⟩ := Option.map_eq_some_iff.mp h
  exact ⟨n, b, hn, hb, rfl⟩

/-- What is held was read when stock was taken, and is held under its own id. -/
lemma mem_of_held {id : String} {r : Record} (h : p.holdings.held[id]? = some r) :
    r ∈ (p.asked.cachedRecords conversation).1.getD [] ∧ r.id = id := by
  have hheld : (p.asked.takeStock conversation p.outline).1.held[id]? = some r := by
    rw [p.takeStock_eq, h]
  exact mem_of_takeStock hheld

/-- What was fetched comes from the reply, linked and under its own id. -/
lemma exists_of_fetched {id : String} {m : Message} (h : p.fetched[id]? = some m) :
    m.id = id ∧ ∃ reply, p.stocked.askBodies conversation p.wanted = (.ok reply, p.supplied) ∧
      ∃ src ∈ reply, m = p.outline.link src := by
  rcases fetch_cases p.fetch_eq with ⟨-, hnone, -⟩ | ⟨-, reply, hask, hfetched, -⟩
  · rw [hnone] at h
    simp at h
  · rw [hfetched] at h
    obtain ⟨hid, src, hsrc, hm⟩ := exists_of_getElem?_accept h
    exact ⟨hid, reply, hask, src, hsrc, hm⟩

/-- Only bodies of the outline are accepted. -/
lemma mem_nodes_of_fetched {id : String} {m : Message} (h : p.fetched[id]? = some m) :
    id ∈ p.outline.nodes := by
  rcases fetch_cases p.fetch_eq with ⟨-, hnone, -⟩ | ⟨-, reply, -, hfetched, -⟩
  · rw [hnone] at h
    simp at h
  · rw [hfetched] at h
    exact (mem_accept_iff.mp (mem_iff_exists_getElem?.mpr ⟨m, h⟩)).1

/-- The body for a node has the id of the node. -/
lemma id_eq_of_bodyOf {id : String} {n : Node} {b : Body} (hn : p.outline.nodes[id]? = some n)
    (h : p.bodyOf id n = some b) : b.message.id = id := by
  rcases p.bodyOf_cases hn h with ⟨r, -, hid, -, rfl⟩ | ⟨m, hm, rfl⟩ | ⟨r, hr, -, rfl⟩
  · exact hid
  · exact (p.exists_of_fetched hm).1
  · exact (p.mem_of_held hr).2

/-! ### What a pass writes -/

/-- A fetched body is written under the fingerprint that the outline gives. -/
lemma mem_batch_iff {r : Record} :
    r ∈ p.batch ↔ ∃ (n : Node) (m : Message), m.id ∈ p.wanted ∧ p.fetched[m.id]? = some m ∧
      p.outline.nodes[m.id]? = some n ∧
      r = ⟨conversation, m, n.fingerprint, p.supplied.clock⟩ := by
  rw [batch, fetchedRecords, List.mem_filterMap]
  constructor
  · rintro ⟨id, hid, hr⟩
    obtain ⟨n, hn, hrest⟩ := Option.bind_eq_some_iff.mp hr
    obtain ⟨m, hm, hrecord⟩ := Option.bind_eq_some_iff.mp hrest
    obtain ⟨rfl, -⟩ := p.exists_of_fetched hm
    exact ⟨n, m, hid, hm, hn, (Option.some.inj hrecord).symm⟩
  · rintro ⟨n, m, hid, hm, hn, rfl⟩
    refine ⟨m.id, hid, ?_⟩
    rw [hn, hm]
    rfl

/-- What the cache has lost are the bodies in hand; they are written as the outline has them. -/
lemma mem_lost_iff {r : Record} :
    r ∈ p.assembly.lost ↔ ∃ (n : Node) (m : Message), p.bodyOf m.id n = some (.inHand m) ∧
      p.outline.nodes[m.id]? = some n ∧
      r = ⟨conversation, p.outline.link m, n.fingerprint, p.checked.clock⟩ := by
  rw [assembly, assemble, List.mem_filterMap]
  constructor
  · rintro ⟨⟨id, n⟩, hn, hr⟩
    have hn : p.outline.nodes[id]? = some n := Std.ExtTreeMap.mem_toList_iff_getElem?_eq_some.mp hn
    obtain ⟨b, hb, hr⟩ := Option.bind_eq_some_iff.mp hr
    cases b with
    | stored m => cases hr
    | inHand m =>
      obtain rfl : m.id = id := p.id_eq_of_bodyOf hn hb
      exact ⟨n, m, hb, hn, (Option.some.inj hr).symm⟩
  · rintro ⟨n, m, hb, hn, rfl⟩
    refine ⟨(m.id, n), Std.ExtTreeMap.mem_toList_iff_getElem?_eq_some.mpr hn, ?_⟩
    change (p.bodyOf m.id n).bind _ = _
    rw [hb, Option.bind_some, lostRecord]

/-- What is written are records of the conversation, for messages of the outline. -/
lemma of_mem_batch_or_lost {r : Record} (hr : r ∈ p.batch ∨ r ∈ p.assembly.lost) :
    r.conversation = conversation ∧ r.id ∈ p.outline.nodes := by
  rcases hr with hr | hr
  · obtain ⟨n, m, -, -, hn, rfl⟩ := p.mem_batch_iff.mp hr
    exact ⟨rfl, mem_iff_exists_getElem?.mpr ⟨n, hn⟩⟩
  · obtain ⟨n, m, -, hn, rfl⟩ := p.mem_lost_iff.mp hr
    refine ⟨rfl, mem_iff_exists_getElem?.mpr ⟨n, ?_⟩⟩
    rwa [Record.id, Outline.id_link]

/-! ### The states of a pass -/

/-- The first call asks for the outline and changes nothing but the remote store. -/
lemma asked_eq : p.asked = { s with
    remote := p.asked.remote
    calls := s.calls ++ [.outline conversation (.ok p.outline)] } := by
  have h := p.askOutline_eq
  unfold askOutline at h
  obtain ⟨hreply, hasked⟩ := Prod.mk.inj h
  rw [← hasked, ← hreply]
  rfl

/-- Fetching changes nothing but the remote store. -/
lemma supplied_eq : p.supplied = { p.stocked with
    remote := p.supplied.remote
    calls := p.supplied.calls } := by
  rcases fetch_cases p.fetch_eq with ⟨-, -, heq⟩ | ⟨-, reply, hask, -⟩
  · rw [heq]
  · unfold askBodies at hask
    obtain ⟨-, hsupplied⟩ := Prod.mk.inj hask
    rw [← hsupplied]
    rfl

/-- Taking stock starts with reading the cache. -/
lemma cacheSteps_asked (batch : List Record → Prop) :
    CacheSteps conversation batch p.asked (p.asked.cachedRecords conversation).2 :=
  (CacheSteps.refl p.asked).cachedRecords

/-- Taking stock goes on after reading, and writes nothing. -/
lemma cacheSteps_stocked (batch : List Record → Prop) :
    CacheSteps conversation batch (p.asked.cachedRecords conversation).2 p.stocked := by
  have h : (p.asked.takeStock conversation p.outline).2 = p.stocked := by rw [p.takeStock_eq]
  exact h ▸ CacheSteps.of_cachedRecords_takeStock p.asked p.outline

lemma cacheSteps_cached (batch : List Record → Prop) (hbatch : batch p.batch) :
    CacheSteps conversation batch p.supplied p.cached :=
  (CacheSteps.refl p.supplied).storeIf p.holdings.writable hbatch

/-- The cache is read again right after the first write. -/
lemma cachedRecords_cached : p.cached.cachedRecords conversation = (p.reread, p.checked) :=
  p.reread_eq

lemma cacheSteps_checked (batch : List Record → Prop) :
    CacheSteps conversation batch p.cached p.checked := by
  have h : CacheSteps conversation batch p.cached (p.cached.cachedRecords conversation).2 :=
    (CacheSteps.refl p.cached).cachedRecords
  rwa [p.cachedRecords_cached] at h

/-- At the end what the cache has lost is written. -/
lemma cacheSteps_end (batch : List Record → Prop) (hbatch : batch p.assembly.lost) :
    CacheSteps conversation batch p.checked s' := by
  have h : CacheSteps conversation batch p.checked
      (p.checked.storeIf p.holdings.writable p.assembly.lost) :=
    (CacheSteps.refl p.checked).storeIf p.holdings.writable hbatch
  rwa [assembly, p.end_eq] at h

/-- What the cache keeps holds until the bodies have come. -/
lemma keeping_supplied {keeping : κ → Prop} {good : Record → Prop}
    (keeps : Keeps keeping conversation good) (hs : keeping s.cache) :
    keeping p.asked.cache ∧ keeping p.supplied.cache := by
  have hasked : keeping p.asked.cache := by
    rw [p.asked_eq]
    exact hs
  have hstocked := keeps.of_cacheSteps
    ((p.cacheSteps_asked _).trans (p.cacheSteps_stocked _)) hasked
  refine ⟨hasked, ?_⟩
  rw [p.supplied_eq]
  exact hstocked

/-- Along the states of a pass calls are only added. -/
lemma calls_isPrefix :
    p.asked.calls <+: (p.asked.cachedRecords conversation).2.calls ∧
      (p.asked.cachedRecords conversation).2.calls <+: p.stocked.calls ∧
      p.stocked.calls <+: p.supplied.calls ∧ p.supplied.calls <+: p.cached.calls ∧
      p.cached.calls <+: p.checked.calls ∧ p.checked.calls <+: s'.calls := by
  refine ⟨(p.cacheSteps_asked fun _ => True).calls_isPrefix,
    (p.cacheSteps_stocked fun _ => True).calls_isPrefix, ?_,
    (p.cacheSteps_cached (fun _ => True) trivial).calls_isPrefix,
    (p.cacheSteps_checked fun _ => True).calls_isPrefix,
    (p.cacheSteps_end (fun _ => True) trivial).calls_isPrefix⟩
  rcases fetch_cases p.fetch_eq with ⟨-, -, heq⟩ | ⟨-, reply, hask, -⟩
  · exact ⟨[], by rw [heq, List.append_nil]⟩
  · rw [calls_askBodies hask]
    exact List.prefix_append _ _

/-- The pass succeeds with its tree and its report. -/
theorem refreshChanged_eq : s.refreshChanged conversation = (.ok (p.tree, p.report), s') := by
  have hmissing : (p.outline.nodes.keys.filter fun id => !p.assembly.bodies.contains id) = [] := by
    rw [List.filter_eq_nil_iff]
    intro id hid
    have hmem := p.mem_bodies_iff.mpr (Std.ExtTreeMap.mem_keys.mp hid)
    simpa using hmem
  unfold refreshChanged
  simp only [p.askOutline_eq, p.takeStock_eq, p.fetch_eq]
  unfold finishPass
  simp only [p.reread_eq, p.end_eq]
  rw [assembly] at hmissing
  rw [hmissing]
  rfl

/-- With a cache in use synchronising comes down to the pass. -/
lemma refresh_eq (hs : s.degraded = false) :
    s.refresh conversation = (.ok (p.tree, p.report), s') := by
  unfold refresh
  rw [hs, p.refreshChanged_eq]
  rfl

/-- Bodies are asked for during the pass exactly if some are wanted. -/
lemma exists_calls :
    ∃ made, s'.calls = s.calls ++ made ∧
      ((∀ call ∈ made, call.isFetch = false) ↔ p.wanted = []) := by
  have hbefore := (p.cacheSteps_asked fun _ => True).trans (p.cacheSteps_stocked _)
  have hafter := ((p.cacheSteps_cached (fun _ => True) trivial).trans
    (p.cacheSteps_checked _)).trans (p.cacheSteps_end _ trivial)
  obtain ⟨before, hstocked, hcache⟩ := hbefore.exists_calls
  obtain ⟨after, hend, hcache'⟩ := hafter.exists_calls
  rw [p.asked_eq] at hstocked
  -- Before and after the bodies are asked for, all calls but the first are on the cache.
  rcases fetch_cases p.fetch_eq with ⟨hnone, -, heq⟩ | ⟨hsome, reply, hask, -⟩
  · refine ⟨.outline conversation (.ok p.outline) :: before ++ after, ?_, iff_of_true ?_ hnone⟩
    · rw [hend, heq, hstocked]
      simp
    · intro call hcall
      rcases List.mem_append.mp hcall with hcall | hcall
      · rcases List.mem_cons.mp hcall with rfl | hcall
        · rfl
        · exact (hcache call hcall).isFetch_eq_false
      · exact (hcache' call hcall).isFetch_eq_false
  · let fetch : Call := .bodies conversation p.wanted (.ok reply)
    refine ⟨.outline conversation (.ok p.outline) :: before ++ fetch :: after, ?_,
      iff_of_false (fun hall => ?_) hsome⟩
    · rw [hend, calls_askBodies hask, hstocked]
      simp [fetch, wanted]
    · cases hall fetch (by simp)

end Pass

/-- Once the outline and the bodies have come nothing keeps the pass from its end. -/
lemma exists_pass_of_fetch {s asked supplied : Stores ρ κ} {conversation : String} {o : Outline}
    {fetched : IdMap Message} (hask : s.askOutline conversation = (.ok o, asked))
    (hfetch : (asked.takeStock conversation o).2.fetch conversation o
      (wanted o (asked.takeStock conversation o).1.held) = (.ok fetched, supplied)) :
    ∃ s', Nonempty (Pass s s' conversation) := by
  let p : Pass s _ conversation :=
    { outline := o, holdings := (asked.takeStock conversation o).1, fetched, reread := _, asked,
      stocked := (asked.takeStock conversation o).2, supplied, checked := _,
      askOutline_eq := hask, takeStock_eq := rfl, fetch_eq := hfetch, reread_eq := rfl,
      end_eq := rfl }
  exact ⟨_, ⟨p⟩⟩

/-- A differential pass that succeeds is one. -/
theorem exists_pass {s s' : Stores ρ κ} {conversation : String} {outcome : Tree × Report}
    (h : s.refreshChanged conversation = (.ok outcome, s')) :
    ∃ p : Pass s s' conversation, outcome = (p.tree, p.report) := by
  have hfirst := h
  unfold refreshChanged at h
  split at h
  · cases h
  next o asked hask =>
    dsimp only at h
    split at h
    · cases h
    next fetched supplied hfetch =>
      obtain ⟨s'', ⟨p⟩⟩ := exists_pass_of_fetch hask hfetch
      obtain ⟨hout, rfl⟩ := Prod.mk.inj (hfirst.symm.trans p.refreshChanged_eq)
      exact ⟨p, by simpa using hout⟩

/-! ### Synchronising -/

section Refresh

variable {s s' : Stores ρ κ} {conversation : String} {reply : Except Failure (Tree × Report)}

/-- A full fetch fails with its question, or gives the tree of the reply and puts its records in the place of those
of the conversation. -/
lemma refreshWhole_cases (h : s.refreshWhole conversation = (reply, s')) :
    (∃ e, reply = .error e ∧ s.askSnapshot conversation = (.error e, s')) ∨
      ∃ full asked, s.askSnapshot conversation = (.ok full, asked) ∧
        reply = .ok (treeOf full, ⟨.full, full.bodies.length, false, (treeOf full).size⟩) ∧
        s' = (asked.overwrite conversation
          ((treeOf full).messages.values.map (snapshotRecord conversation full asked.clock))).2 := by
  unfold refreshWhole at h
  split at h
  next e asked hask =>
    obtain ⟨rfl, rfl⟩ := Prod.mk.inj h
    exact Or.inl ⟨e, rfl, hask⟩
  next full asked hask =>
    obtain ⟨rfl, rfl⟩ := Prod.mk.inj h
    exact Or.inr ⟨full, asked, hask, rfl, rfl⟩

/-- Synchronising is a differential pass, or a full fetch after a pass that has failed, or a full fetch at once if
the cache was given up. -/
theorem refresh_cases (h : s.refresh conversation = (reply, s')) :
    (s.degraded = false ∧ ∃ p : Pass s s' conversation, reply = .ok (p.tree, p.report)) ∨
      (s.degraded = false ∧ ∃ e failed, s.refreshChanged conversation = (.error e, failed) ∧
        failed.refreshWhole conversation = (reply, s')) ∨
      (s.degraded = true ∧ s.refreshWhole conversation = (reply, s')) := by
  unfold refresh at h
  split at h
  next hdegraded => exact Or.inr (Or.inr ⟨hdegraded, h⟩)
  next hdegraded =>
    have hdegraded : s.degraded = false := Bool.eq_false_iff.mpr hdegraded
    split at h
    next outcome passed hpass =>
      obtain ⟨rfl, rfl⟩ := Prod.mk.inj h
      obtain ⟨p, rfl⟩ := exists_pass hpass
      exact Or.inl ⟨hdegraded, p, rfl⟩
    next e failed hpass => exact Or.inr (Or.inl ⟨hdegraded, e, failed, hpass, h⟩)

end Refresh

end Stores

end DialogueSync.Client
