import DialogueSync.Proofs.Cache.Memory
import Mathlib.Algebra.Order.BigOperators.Group.Finset
import Mathlib.Data.Finset.Card

/-!
# The limit of a cache in memory

A cache in memory is changed by writing a batch, by dropping the records of a conversation and by clearing it. However
it was changed since it was empty, it holds as many records as there are keys among them, and never more than its limit
(`Within.foldl_change`).

Whether a batch is written depends on how many different keys there are in the cache and in the batch together. These
can be counted before anything is written: they are the keys of the cache and those of the batch that are new, each
counted once however often the batch repeats it (`card_keys_union`).
-/

namespace DialogueSync.Cache.Memory

variable {m : Memory} {quota : Option Nat} {batch : List Record} {conversation : String} {k : Key}

/-! ### Counting keys -/

/-- The different keys of some records. -/
def keysOf (records : List Record) : Finset Key :=
  (records.map Record.key).toFinset

/-- The different keys of the records in a cache. -/
def keys (m : Memory) : Finset Key :=
  keysOf m.records.values

/-- The keys of a batch are those of its records. -/
lemma mem_keysOf_iff : k ∈ keysOf batch ↔ ∃ r ∈ batch, r.key = k := by
  rw [keysOf, List.mem_toFinset, List.mem_map]

/-- In a keyed cache the keys of the records are those that they are stored under. -/
lemma Keyed.mem_keys_iff (h : m.Keyed) : k ∈ m.keys ↔ k ∈ m.records := by
  rw [keys, mem_keysOf_iff, mem_iff_exists_getElem?]
  constructor
  · rintro ⟨r, hr, rfl⟩
    obtain ⟨k, hk⟩ := mem_values_iff.mp hr
    exact ⟨r, (h k r hk).symm ▸ hk⟩
  · rintro ⟨r, hr⟩
    exact ⟨r, mem_values_iff.mpr ⟨k, hr⟩, h k r hr⟩

/-- A keyed cache holds as many records as there are keys among them. -/
lemma Keyed.total_eq_card (h : m.Keyed) : m.total = m.keys.card := by
  have hkeys : m.keys = m.records.keys.toFinset := by
    ext k
    rw [h.mem_keys_iff, List.mem_toFinset, Std.ExtTreeMap.mem_keys]
  rw [hkeys, List.toFinset_card_of_nodup Std.ExtTreeMap.nodup_keys, Std.ExtTreeMap.length_keys, total]

/-- After writing there are the keys of the cache and those of the batch. -/
lemma Keyed.keys_written (h : m.Keyed) (batch : List Record) : (m.written batch).keys = m.keys ∪ keysOf batch := by
  ext k
  rw [(h.written batch).mem_keys_iff, Finset.mem_union, h.mem_keys_iff, mem_keysOf_iff]
  exact mem_insertAll_iff.trans or_comm

/-- The keys of a cache and a batch together are those of the cache and the ones that are new. -/
lemma card_keys_union (m : Memory) (batch : List Record) :
    (m.keys ∪ keysOf batch).card = m.keys.card + ((keysOf batch).filter fun k => k ∉ m.keys).card := by
  rw [← Finset.union_sdiff_self_eq_union, Finset.card_union_of_disjoint Finset.disjoint_sdiff,
    Finset.sdiff_eq_filter]

/-- A conversation has as many records as there are keys of it. -/
lemma Keyed.length_recordsOf (h : m.Keyed) (conversation : String) :
    (m.recordsOf conversation).length = (m.keys.filter fun k => k.conversation = conversation).card := by
  have hkeys : (m.keys.filter fun k => k.conversation = conversation) =
      (m.records.filter fun k _ => k.conversation = conversation).keys.toFinset := by
    ext k
    rw [Finset.mem_filter, h.mem_keys_iff, List.mem_toFinset, mem_keys_filter, mem_iff_exists_getElem?]
    simp
  rw [recordsOf, length_values, hkeys, List.toFinset_card_of_nodup Std.ExtTreeMap.nodup_keys,
    Std.ExtTreeMap.length_keys]

/-- The records are those of the single conversations. -/
lemma Keyed.total_eq_sum (h : m.Keyed) :
    m.total = ∑ conversation ∈ m.keys.image Key.conversation, (m.recordsOf conversation).length := by
  rw [h.total_eq_card, Finset.card_eq_sum_card_image Key.conversation]
  exact Finset.sum_congr rfl fun conversation _ => (h.length_recordsOf conversation).symm

/-! ### Changes -/

/-- A call that changes a cache. -/
inductive Change where
  /-- A batch is written. -/
  | put (batch : List Record)
  /-- The records of a conversation are dropped. -/
  | drop (conversation : String)
  /-- All records are dropped. -/
  | clear

/-- The cache after a call, whatever its reply. -/
def change (m : Memory) : Change → Memory
  | .put batch => (Cache.put batch m).2
  | .drop conversation => (Cache.drop conversation m).2
  | .clear => (Cache.clear m).2

/-- A cache that has every record under its own key, and no more of them than the limit allows. -/
structure Within (quota : Option Nat) (m : Memory) : Prop where
  /-- Every record is stored under its own key. -/
  keyed : m.Keyed
  /-- The records are within the limit. -/
  fits : m.Fits
  /-- The limit is the given one. -/
  quota_eq : m.quota = quota

lemma within_empty (quota : Option Nat) : Within quota { quota := quota } where
  keyed := keyed_clear { quota := quota }
  fits limit _ := by simp
  quota_eq := rfl

/-- There are no more records after dropping those of a conversation. -/
lemma Fits.drop (h : m.Fits) (conversation : String) : (m.drop conversation).Fits :=
  fun limit hlimit => Nat.le_trans Std.ExtTreeMap.size_filter_le_size (h limit hlimit)

lemma fits_clear (m : Memory) : m.clear.Fits := by
  intro limit _
  rw [← total, total_clear]
  exact Nat.zero_le limit

/-- No call takes a cache beyond its limit. -/
lemma Within.change (h : Within quota m) (c : Change) : Within quota (m.change c) := by
  cases c with
  | put batch =>
    by_cases hfits : (m.written batch).Fits
    · have hchange : m.change (.put batch) = m.written batch := congrArg Prod.snd (cache_put_of_fits hfits)
      rw [hchange]
      exact ⟨h.keyed.written batch, hfits, h.quota_eq⟩
    · have hchange : m.change (.put batch) = m := congrArg Prod.snd (cache_put_of_not_fits hfits)
      rw [hchange]
      exact h
  | drop conversation => exact ⟨h.keyed.drop conversation, h.fits.drop conversation, h.quota_eq⟩
  | clear => exact ⟨keyed_clear m, fits_clear m, h.quota_eq⟩

/-- No sequence of calls does. -/
lemma Within.foldl_change (h : Within quota m) (changes : List Change) :
    Within quota (changes.foldl Memory.change m) := by
  induction changes generalizing m with
  | nil => exact h
  | cons c rest ih => exact ih (h.change c)

/-! ### Writing -/

/-- A batch is written exactly if the keys of the cache and the batch together are within the limit. -/
lemma Within.fits_written_iff (h : Within quota m) :
    (m.written batch).Fits ↔ ∀ limit, quota = some limit → (m.keys ∪ keysOf batch).card ≤ limit := by
  rw [← h.keyed.keys_written batch, ← (h.keyed.written batch).total_eq_card, ← h.quota_eq]
  exact Iff.rfl

/-- What comes of a batch that is to be written to a cache. -/
structure Puts (quota : Option Nat) (m : Memory) (batch : List Record) : Prop where
  /-- The batch is accepted exactly if there are not too many keys in the cache and the batch together. -/
  ok_iff : (Cache.put batch m).1 = .ok () ↔ ∀ limit, quota = some limit → (m.keys ∪ keysOf batch).card ≤ limit
  /-- These are the records of the cache and the new keys of the batch. -/
  card_eq : (m.keys ∪ keysOf batch).card = m.total + ((keysOf batch).filter fun k => k ∉ m.keys).card
  /-- Under every key of an accepted batch its last record with that key is found. -/
  latest : (Cache.put batch m).1 = .ok () → ∀ r ∈ batch, ∃ last, Latest batch last ∧ last.key = r.key ∧
    (Cache.put batch m).2.records[r.key]? = some last
  /-- Under every other key is found what was there before. -/
  others : (Cache.put batch m).1 = .ok () → ∀ k : Key, k ∉ keysOf batch →
    (Cache.put batch m).2.records[k]? = m.records[k]?
  /-- A batch that is not accepted is refused because the cache is full, and changes nothing. -/
  refused : (Cache.put batch m).1 ≠ .ok () → (Cache.put batch m).1 = .error .cacheFull ∧ (Cache.put batch m).2 = m

/-- A cache within its limit takes batches as `Puts` says. -/
lemma Within.puts (h : Within quota m) (batch : List Record) : Puts quota m batch := by
  by_cases hfits : (m.written batch).Fits
  · have hput := cache_put_of_fits hfits
    constructor
    case ok_iff => exact iff_of_true (congrArg Prod.fst hput) (h.fits_written_iff.mp hfits)
    case card_eq => rw [h.keyed.total_eq_card, card_keys_union]
    case latest =>
      intro _ r hr
      obtain ⟨last, hlast, hkey⟩ := exists_latest hr
      refine ⟨last, hlast, hkey, ?_⟩
      rw [hput, ← hkey]
      exact hlast.getElem?_insertAll m.records
    case others =>
      intro _ k hk
      rw [hput]
      exact getElem?_insertAll_of_forall_ne fun r hr hkey => hk (mem_keysOf_iff.mpr ⟨r, hr, hkey⟩)
    case refused => exact fun hnot => absurd (congrArg Prod.fst hput) hnot
  · have hput := cache_put_of_not_fits hfits
    have hnot : (Cache.put batch m).1 ≠ .ok () := by
      rw [hput]
      exact fun hok => by cases hok
    constructor
    case ok_iff => exact iff_of_false hnot fun hle => hfits (h.fits_written_iff.mpr hle)
    case card_eq => rw [h.keyed.total_eq_card, card_keys_union]
    case latest => exact fun hok => absurd hok hnot
    case others => exact fun hok => absurd hok hnot
    case refused => exact fun _ => ⟨congrArg Prod.fst hput, congrArg Prod.snd hput⟩

/-- However a cache with any limit was changed since it was empty, it holds as many records as there are keys among
them, which are those of the single conversations, and no more than the limit; and a batch is written to it as a whole
or, if that would exceed the limit, not at all. -/
theorem total_le_quota_and_puts (quota : Option Nat) (changes : List Change) :
    let m := changes.foldl change { quota := quota }
    m.total = m.keys.card ∧
      m.total = ∑ conversation ∈ m.keys.image Key.conversation, (m.recordsOf conversation).length ∧
      (∀ limit, quota = some limit → m.total ≤ limit) ∧ ∀ batch, Puts quota m batch := by
  intro m
  have h : Within quota m := (within_empty quota).foldl_change changes
  have hle : ∀ limit, quota = some limit → m.total ≤ limit := fun limit hlimit => h.fits limit (h.quota_eq.trans hlimit)
  exact ⟨h.keyed.total_eq_card, h.keyed.total_eq_sum, hle, h.puts⟩

/-- Two wordings of a question fit where there is room for one record, but two questions do not. -/
example :
    let record (content id : String) : Record := ⟨"c", Message.ask content id 1, "", 1⟩
    let room : Memory := { quota := some 1 }
    (Cache.put [record "Why" "a", record "Why?" "a"] room).1 = .ok () ∧
      (Cache.put [record "Why?" "a", record "How?" "b"] room).1 = .error .cacheFull := by
  decide +kernel

end DialogueSync.Cache.Memory
