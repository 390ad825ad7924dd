import DialogueSync.Proofs.Cache.Memory
import DialogueSync.Proofs.Client.Pass

/-!
# Current records in memory

What a client finds and leaves in a cache in memory. Such a cache refuses a batch only for its limit, and
storing a batch has one of three outcomes (`store_cases`): the batch is added to what is there, it stands
alone in the cleared cache, or the cache is given up.

A batch that `Renews` some messages of an outline has current records of exactly these. After it is written,
there are current records of these messages and of those that had one before (`hasCurrent_written_iff`).
-/

namespace DialogueSync.Client.Stores

open Cache (Key Memory Record)

variable {ρ : Type} {conversation : String} {o : Outline}

/-! ### Working on a cache in memory -/

section Memory

variable {s : Stores ρ Memory}

/-- After clearing, a batch stands alone in the cache or the cache is given up. -/
lemma clearAndRetry_cases (hs : s.degraded = false) (batch : List Record) :
    (s.cache.clear.written batch).Fits ∧
        (s.clearAndRetry batch).2.cache = s.cache.clear.written batch ∧
        (s.clearAndRetry batch).2.degraded = false ∨
      ¬ (s.cache.clear.written batch).Fits ∧ (s.clearAndRetry batch).2.degraded = true := by
  have hclear : s.callClear.2.cache = s.cache.clear := rfl
  have hcall : s.callClear = (.ok (), s.callClear.2) := rfl
  unfold clearAndRetry
  rw [hcall]
  dsimp only [callPut]
  rw [hclear]
  by_cases hfits : (s.cache.clear.written batch).Fits
  · rw [Memory.cache_put_of_fits hfits]
    exact Or.inl ⟨hfits, rfl, hs⟩
  · rw [Memory.cache_put_of_not_fits hfits]
    exact Or.inr ⟨hfits, rfl⟩

/-- A batch is added to the cache, or stands alone in the cleared cache, or the cache is given up. -/
lemma store_cases (hs : s.degraded = false) (hfits : s.cache.Fits) (batch : List Record) :
    (s.cache.written batch).Fits ∧ (s.store batch).2.cache = s.cache.written batch ∧
        (s.store batch).2.degraded = false ∨
      ¬ (s.cache.written batch).Fits ∧
        ((s.cache.clear.written batch).Fits ∧
            (s.store batch).2.cache = s.cache.clear.written batch ∧
            (s.store batch).2.degraded = false ∨
          ¬ (s.cache.clear.written batch).Fits ∧ (s.store batch).2.degraded = true) := by
  by_cases hkept : (s.cache.written batch).Fits
  · refine Or.inl ⟨hkept, ?_⟩
    unfold store
    simp only [hs, callPut, Memory.cache_put_of_fits hkept]
    cases batch <;> simp [note, hs]
  · refine Or.inr ⟨hkept, ?_⟩
    have hbatch : batch ≠ [] := by
      rintro rfl
      exact hkept (by rwa [Memory.written_nil])
    have hclear : (s.store batch).2 = ((s.callPut batch).2.clearAndRetry batch).2 := by
      unfold store
      simp [hs, hbatch, callPut, Memory.cache_put_of_not_fits hkept, Failure.isFull]
    have hcache : (s.callPut batch).2.cache = s.cache := by
      unfold callPut
      rw [Memory.cache_put_of_not_fits hkept]
      rfl
    have hretry := clearAndRetry_cases (s := (s.callPut batch).2) hs batch
    rwa [hcache, ← hclear] at hretry

lemma store_nil (s : Stores ρ Memory) : (s.store []).2 = s := by
  unfold store
  split
  · rfl
  · rfl

/-- A cache in use answers with the records of the conversation. -/
lemma cachedRecords_eq (hs : s.degraded = false) (conversation : String) :
    s.cachedRecords conversation =
      (some (s.cache.recordsOf conversation), (s.callRead conversation).2) := by
  unfold cachedRecords
  rw [hs]
  rfl

/-- When stock is taken and there are not too many records, they are held and nothing is dropped. -/
lemma takeStock_of_le (hs : s.degraded = false) (conversation : String) {o : Outline}
    (hle : ¬ o.size < (Record.byId (s.cache.recordsOf conversation)).size) :
    s.takeStock conversation o =
      (⟨Record.byId (s.cache.recordsOf conversation), false, true⟩, (s.callRead conversation).2) := by
  unfold takeStock
  rw [cachedRecords_eq hs]
  exact if_neg hle

/-- When stock is taken the records are held, or there are too many of them and they are dropped. -/
lemma takeStock_cases (hs : s.degraded = false) (conversation : String) (o : Outline) :
    (s.takeStock conversation o).1.writable = true ∧
      (s.takeStock conversation o).2.degraded = false ∧
      (o.size < (Record.byId (s.cache.recordsOf conversation)).size ∧
          (s.takeStock conversation o).1.held = ∅ ∧
          (s.takeStock conversation o).2.cache = s.cache.drop conversation ∨
        ¬ o.size < (Record.byId (s.cache.recordsOf conversation)).size ∧
          (s.takeStock conversation o).1.held = Record.byId (s.cache.recordsOf conversation) ∧
          (s.takeStock conversation o).2.cache = s.cache) := by
  have hread : (s.callRead conversation).2.degraded = false := hs
  have hdiscard : (s.callRead conversation).2.discard conversation =
      (true, ((s.callRead conversation).2.callDrop conversation).2) := by
    unfold discard
    rw [hread]
    rfl
  unfold takeStock
  rw [cachedRecords_eq hs]
  dsimp only [Option.getD_some]
  split
  next hmore =>
    rw [hdiscard]
    exact ⟨rfl, hs, Or.inl ⟨hmore, rfl, rfl⟩⟩
  next hmore => exact ⟨rfl, hs, Or.inr ⟨hmore, rfl, rfl⟩⟩

end Memory

/-! ### Current records -/

/-- The cache has a current record of a message. -/
def HasCurrent (k : Memory) (conversation : String) (o : Outline) (id : String) : Prop :=
  ∃ r ∈ k.recordsOf conversation, r.id = id ∧ ∃ n : Node, o.nodes[id]? = some n ∧ Current r n

/-- The cache has a current record of every message of the outline. -/
def UpToDate (k : Memory) (conversation : String) (o : Outline) : Prop :=
  ∀ id ∈ o.nodes, HasCurrent k conversation o id

instance (k : Memory) (conversation : String) (o : Outline) (id : String) :
    Decidable (HasCurrent k conversation o id) :=
  inferInstanceAs (Decidable (∃ r ∈ k.recordsOf conversation, r.id = id ∧
    ∃ n ∈ o.nodes[id]?, Current r n))

instance (k : Memory) (conversation : String) (o : Outline) : Decidable (UpToDate k conversation o) :=
  decidable_of_iff (∀ id ∈ o.nodes.keys, HasCurrent k conversation o id) (by simp [UpToDate])

/-- A batch has current records of a conversation, namely of the messages with the given ids. -/
structure Renews (conversation : String) (o : Outline) (ids : List String) (batch : List Record) :
    Prop where
  /-- The records are of the conversation. -/
  conversation_eq : ∀ r ∈ batch, r.conversation = conversation
  /-- The records are current. -/
  current : ∀ r ∈ batch, ∃ n : Node, o.nodes[r.id]? = some n ∧ Current r n
  /-- The records are those of the given messages. -/
  mem_iff : ∀ id, id ∈ ids ↔ ∃ r ∈ batch, r.id = id

section Current

variable {k : Memory} {ids : List String} {batch : List Record} {id : String}

/-- In a keyed cache a current record is found under its key. -/
lemma hasCurrent_iff (hk : k.Keyed) :
    HasCurrent k conversation o id ↔ ∃ (r : Record) (n : Node),
      k.records[(⟨conversation, id⟩ : Key)]? = some r ∧ o.nodes[id]? = some n ∧ Current r n := by
  constructor
  · rintro ⟨r, hr, rfl, n, hn, hcur⟩
    exact ⟨r, n, hk.mem_recordsOf_iff.mp hr, hn, hcur⟩
  · rintro ⟨r, n, hr, hn, hcur⟩
    exact ⟨r, Memory.mem_recordsOf_iff.mpr ⟨id, hr⟩, congrArg Key.id (hk _ r hr), n, hn, hcur⟩

/-- An empty cache has nothing current. -/
lemma not_hasCurrent_clear : ¬ HasCurrent k.clear conversation o id := by
  rw [hasCurrent_iff (Memory.keyed_clear k)]
  rintro ⟨r, n, hr, -⟩
  rw [Memory.clear, Std.ExtTreeMap.getElem?_empty] at hr
  cases hr

/-- An up-to-date cache has at least as many records as there are messages. -/
lemma UpToDate.size_le (hk : k.Keyed) (h : UpToDate k conversation o) : o.size ≤ k.records.size := by
  rw [Outline.size, ← Std.ExtTreeMap.length_keys, ← List.length_map (Key.mk conversation)]
  refine length_le_size (Memory.nodup_map_key Std.ExtTreeMap.nodup_keys _) fun key hkey => ?_
  obtain ⟨id, hid, rfl⟩ := List.mem_map.mp hkey
  obtain ⟨r, -, hr, -⟩ := (hasCurrent_iff hk).mp (h id (Std.ExtTreeMap.mem_keys.mp hid))
  exact mem_iff_exists_getElem?.mpr ⟨r, hr⟩

/-- If an up-to-date cache has no more records of the conversation than there are messages, it has no others. -/
lemma UpToDate.mem_nodes (hk : k.Keyed) (h : UpToDate k conversation o)
    (hle : (k.recordsOf conversation).length ≤ o.size) : ∀ r ∈ k.recordsOf conversation, r.id ∈ o.nodes := by
  intro r hr
  by_contra hid
  have hnodup : (r.id :: o.nodes.keys).Nodup :=
    List.nodup_cons.mpr ⟨fun hmem => hid (Std.ExtTreeMap.mem_keys.mp hmem), Std.ExtTreeMap.nodup_keys⟩
  -- All messages have records, and the one of another message comes on top of them.
  have hlt : o.nodes.keys.length + 1 ≤ (Record.byId (k.recordsOf conversation)).size := by
    refine length_le_size hnodup fun id hmem => IdMap.mem_collect.mpr ?_
    rcases List.mem_cons.mp hmem with rfl | hmem
    · exact ⟨r, hr, rfl⟩
    · obtain ⟨r', hr', hrid, -⟩ := h id (Std.ExtTreeMap.mem_keys.mp hmem)
      exact ⟨r', hr', hrid⟩
  rw [Std.ExtTreeMap.length_keys, ← Outline.size, hk.size_byId] at hlt
  omega

/-- A message is found among the matching records if the cache has a current record of it. -/
lemma mem_matching_iff :
    id ∈ matching o (k.recordsOf conversation) ↔ HasCurrent k conversation o id := by
  rw [matching, Record.byId, IdMap.mem_collect]
  constructor
  · rintro ⟨r, hr, rfl⟩
    obtain ⟨hmem, hcur⟩ := List.mem_filter.mp hr
    obtain ⟨n, hn, hcur⟩ := (Option.any_eq_true _ _).mp hcur
    exact ⟨r, hmem, rfl, n, hn, by simpa using hcur⟩
  · rintro ⟨r, hr, rfl, n, hn, hcur⟩
    refine ⟨r, List.mem_filter.mpr ⟨hr, ?_⟩, rfl⟩
    rw [hn]
    simpa using hcur

namespace Renews

variable (h : Renews conversation o ids batch)
include h

/-- The records of a batch are stored for the conversation, under their ids. -/
lemma key_eq {r : Record} (hr : r ∈ batch) : r.key = ⟨conversation, r.id⟩ := by
  rw [Record.key, h.conversation_eq r hr]

/-- The keys after writing are those from before and those of the messages. -/
lemma mem_written_iff {key : Key} :
    key ∈ (k.written batch).records ↔
      key ∈ ids.map (Key.mk conversation) ∨ key ∈ k.records := by
  rw [Memory.written, Memory.mem_insertAll_iff]
  refine or_congr_left ?_
  rw [List.mem_map]
  constructor
  · rintro ⟨r, hr, rfl⟩
    exact ⟨r.id, (h.mem_iff _).mpr ⟨r, hr, rfl⟩, (h.key_eq hr).symm⟩
  · rintro ⟨id, hid, rfl⟩
    obtain ⟨r, hr, rfl⟩ := (h.mem_iff _).mp hid
    exact ⟨r, hr, h.key_eq hr⟩

/-- After writing there is a current record for the messages of the batch, and for the others if there was
one before. -/
lemma hasCurrent_written_iff (hk : k.Keyed) :
    HasCurrent (k.written batch) conversation o id ↔ id ∈ ids ∨ HasCurrent k conversation o id := by
  rw [hasCurrent_iff (hk.written batch), hasCurrent_iff hk]
  by_cases hid : id ∈ ids
  · refine iff_of_true ?_ (Or.inl hid)
    obtain ⟨r, hr, rfl⟩ := (h.mem_iff id).mp hid
    obtain ⟨r', hr', hkey, hget⟩ := Memory.exists_getElem?_insertAll k.records hr
    obtain ⟨n, hn, hcur⟩ := h.current r' hr'
    have hrid : r'.id = r.id := congrArg Key.id hkey
    rw [h.key_eq hr] at hget
    exact ⟨r', n, hget, hrid ▸ hn, hcur⟩
  · have hget : (k.written batch).records[(⟨conversation, id⟩ : Key)]? =
        k.records[(⟨conversation, id⟩ : Key)]? := by
      refine Memory.getElem?_insertAll_of_forall_ne fun r hr hkey => hid ?_
      exact (h.mem_iff id).mpr ⟨r, hr, congrArg Key.id hkey⟩
    rw [hget, or_iff_right hid]

/-- The batch has as many records under different keys as there are messages. -/
lemma size_clear_written (hids : ids.Nodup) : (k.clear.written batch).records.size = ids.length := by
  rw [← List.length_map (Key.mk conversation)]
  refine size_eq_length (Memory.nodup_map_key hids _) fun key => ?_
  rw [h.mem_written_iff]
  exact or_iff_left Std.ExtTreeMap.not_mem_empty

end Renews

end Current

end DialogueSync.Client.Stores
