import DialogueSync.Cache.Memory
import DialogueSync.Proofs.IdMap
import Mathlib.Data.List.Nodup

/-!
# The records of a cache in memory

What writing, dropping and clearing do to the single records. A cache in memory is `Keyed` if every record
is stored under its own key, which every call keeps. In such a cache the records of a conversation, collected
by id, are those that are stored under the conversation (`Keyed.getElem?_byId`).
-/

namespace DialogueSync.Cache.Memory

variable {m : Memory} {records : Std.ExtTreeMap Key Record} {batch : List Record}
  {conversation : String} {k : Key} {r : Record}

/-! ### Writing -/

/-- Under a key the last record of the batch that has it is found, or else what was there before. -/
lemma getElem?_insertAll (records : Std.ExtTreeMap Key Record) (batch : List Record) (k : Key) :
    (insertAll records batch)[k]? = (batch.findRev? fun r => r.key = k).or records[k]? :=
  getElem?_insertMany_map records Record.key batch k

/-- What is found after writing was written, or was there before and not written over. -/
lemma mem_or_of_getElem?_insertAll (h : (insertAll records batch)[k]? = some r) :
    r ∈ batch ∧ r.key = k ∨ (∀ r' ∈ batch, r'.key ≠ k) ∧ records[k]? = some r := by
  rw [getElem?_insertAll, List.findRev?_eq_find?_reverse, Option.or_eq_some_iff] at h
  rcases h with h | ⟨hnone, h⟩
  · exact Or.inl ⟨List.mem_reverse.mp (List.mem_of_find?_eq_some h), by simpa using List.find?_some h⟩
  · refine Or.inr ⟨fun r' hr' => ?_, h⟩
    simpa using List.find?_eq_none.mp hnone r' (List.mem_reverse.mpr hr')

/-- Under a key that the batch does not have everything stays as it was. -/
lemma getElem?_insertAll_of_forall_ne (h : ∀ r ∈ batch, r.key ≠ k) :
    (insertAll records batch)[k]? = records[k]? := by
  have hnone : batch.reverse.find? (fun r => r.key = k) = none := by
    refine List.find?_eq_none.mpr fun r hr => ?_
    simpa using h r (List.mem_reverse.mp hr)
  rw [getElem?_insertAll, List.findRev?_eq_find?_reverse, hnone, Option.none_or]

/-- After writing there is a record under every key of the batch and every key from before. -/
lemma mem_insertAll_iff : k ∈ insertAll records batch ↔ (∃ r ∈ batch, r.key = k) ∨ k ∈ records := by
  rw [insertAll, Std.ExtTreeMap.mem_insertMany_list, or_comm]
  simp

/-- Under a key of the batch one of its records is found. -/
lemma exists_getElem?_insertAll (records : Std.ExtTreeMap Key Record) (hr : r ∈ batch) :
    ∃ r' ∈ batch, r'.key = r.key ∧ (insertAll records batch)[r.key]? = some r' := by
  have hmem : r.key ∈ insertAll records batch := mem_insertAll_iff.mpr (Or.inl ⟨r, hr, rfl⟩)
  obtain ⟨r', hr'⟩ := mem_iff_exists_getElem?.mp hmem
  rcases mem_or_of_getElem?_insertAll hr' with ⟨hmem, hkey⟩ | ⟨hnone, -⟩
  · exact ⟨r', hmem, hkey, hr'⟩
  · exact absurd rfl (hnone r hr)

/-- The record is the last one of the batch that has its key. -/
def Latest (batch : List Record) (r : Record) : Prop :=
  ∃ before after, batch = before ++ r :: after ∧ ∀ r' ∈ after, r'.key ≠ r.key

/-- The record that counts is the first one of its key from the end. -/
lemma latest_iff_findRev? : Latest batch r ↔ (batch.findRev? fun r' => r'.key = r.key) = some r := by
  rw [List.findRev?_eq_find?_reverse, List.find?_eq_some_iff_append]
  constructor
  · rintro ⟨before, after, rfl, hafter⟩
    exact ⟨by simp, after.reverse, before.reverse, by simp, by simpa using hafter⟩
  · rintro ⟨-, after, before, heq, hafter⟩
    refine ⟨before.reverse, after.reverse, ?_, by simpa using hafter⟩
    rw [← List.reverse_reverse batch, heq]
    simp

/-- Every key of a batch has a last record. -/
lemma exists_latest (hr : r ∈ batch) : ∃ last, Latest batch last ∧ last.key = r.key := by
  cases hlast : batch.findRev? fun r' => r'.key = r.key with
  | none =>
    rw [List.findRev?_eq_find?_reverse, List.find?_eq_none] at hlast
    exact absurd (by simp) (hlast r (List.mem_reverse.mpr hr))
  | some last =>
    have hkey : last.key = r.key := by
      rw [List.findRev?_eq_find?_reverse] at hlast
      simpa using List.find?_some hlast
    refine ⟨last, latest_iff_findRev?.mpr ?_, hkey⟩
    rw [hkey]
    exact hlast

/-- The last record with a key is found under it after writing. -/
lemma Latest.getElem?_insertAll (h : Latest batch r) (records : Std.ExtTreeMap Key Record) :
    (insertAll records batch)[r.key]? = some r := by
  rw [Memory.getElem?_insertAll, latest_iff_findRev?.mp h, Option.some_or]

/-- The cache with a batch written to it, without regard to the limit. -/
def written (m : Memory) (batch : List Record) : Memory :=
  { m with records := insertAll m.records batch }

@[simp] lemma written_nil (m : Memory) : m.written [] = m := by
  rw [written, insertAll, List.map_nil, Std.ExtTreeMap.insertMany_nil]

/-- The records are within the limit. -/
def Fits (m : Memory) : Prop :=
  ∀ limit, m.quota = some limit → m.records.size ≤ limit

/-- There are too many records if there is a limit that they exceed. -/
lemma not_fits_iff : ¬ m.Fits ↔ ∃ limit, m.quota = some limit ∧ limit < m.records.size := by
  simp [Fits]

/-- A batch that fits is written. -/
lemma cache_put_of_fits (h : (m.written batch).Fits) :
    Cache.put batch m = (.ok (), m.written batch) := by
  have hput : m.put batch = .ok (m.written batch) := put_eq_ok_iff.mpr ⟨h, rfl⟩
  simp only [Cache.put, hput]

/-- A batch that does not fit is refused because the cache is full. -/
lemma cache_put_of_not_fits (h : ¬ (m.written batch).Fits) :
    Cache.put batch m = (.error .cacheFull, m) := by
  cases hput : m.put batch with
  | ok m' => exact absurd (put_eq_ok_iff.mp hput).1 h
  | error e =>
    rw [eq_cacheFull_of_put hput] at hput
    simp only [Cache.put, hput]

/-! ### Records under their own keys -/

/-- Every record is stored under its own key. -/
def Keyed (m : Memory) : Prop :=
  ∀ (k : Key) (r : Record), m.records[k]? = some r → r.key = k

lemma keyed_clear (m : Memory) : m.clear.Keyed := by
  intro k r h
  rw [clear, Std.ExtTreeMap.getElem?_empty] at h
  cases h

/-- Writing keeps a cache keyed. -/
lemma Keyed.written (h : m.Keyed) (batch : List Record) : (m.written batch).Keyed := by
  intro k r hr
  rcases mem_or_of_getElem?_insertAll hr with ⟨-, hkey⟩ | ⟨-, hr⟩
  · exact hkey
  · exact h k r hr

/-- What is found after dropping a conversation was there before. -/
lemma getElem?_of_drop (h : (m.drop conversation).records[k]? = some r) :
    m.records[k]? = some r ∧ k.conversation ≠ conversation := by
  rw [drop, Std.ExtTreeMap.getElem?_filter', Option.filter_eq_some_iff] at h
  exact ⟨h.1, by simpa using h.2⟩

/-- What stays was under its own key before. -/
lemma Keyed.drop (h : m.Keyed) (conversation : String) : (m.drop conversation).Keyed :=
  fun k r hr => h k r (getElem?_of_drop hr).1

/-! ### The records of a conversation -/

/-- Different ids of a conversation have different keys. -/
lemma nodup_map_key {ids : List String} (h : ids.Nodup) (conversation : String) :
    (ids.map (Key.mk conversation)).Nodup :=
  h.map fun _ _ heq => (Key.mk.inj heq).2

/-- The records of a conversation are those that are stored under it. -/
lemma mem_recordsOf_iff :
    r ∈ m.recordsOf conversation ↔ ∃ id, m.records[(⟨conversation, id⟩ : Key)]? = some r := by
  rw [recordsOf, mem_values_iff]
  constructor
  · rintro ⟨k, hk⟩
    rw [Std.ExtTreeMap.getElem?_filter', Option.filter_eq_some_iff] at hk
    obtain ⟨hr, hc⟩ := hk
    have hc : k.conversation = conversation := by simpa using hc
    exact ⟨k.id, hc ▸ hr⟩
  · rintro ⟨id, hid⟩
    refine ⟨⟨conversation, id⟩, ?_⟩
    rw [Std.ExtTreeMap.getElem?_filter', hid]
    simp

/-- After dropping a conversation it has no records. -/
lemma recordsOf_drop_self (m : Memory) (conversation : String) :
    (m.drop conversation).recordsOf conversation = [] := by
  refine List.eq_nil_iff_forall_not_mem.mpr fun r hr => ?_
  obtain ⟨id, hid⟩ := mem_recordsOf_iff.mp hr
  exact (getElem?_of_drop hid).2 rfl

/-- Dropping a conversation leaves the records of every other one as they are. -/
lemma recordsOf_drop_of_ne (m : Memory) {other : String} (h : other ≠ conversation) :
    (m.drop conversation).recordsOf other = m.recordsOf other := by
  have hrecords : (m.drop conversation).records.filter (fun k _ => k.conversation = other) =
      m.records.filter fun k _ => k.conversation = other := by
    refine Std.ExtTreeMap.ext_getElem? fun {k} => ?_
    rw [drop, Std.ExtTreeMap.getElem?_filter', Std.ExtTreeMap.getElem?_filter',
      Std.ExtTreeMap.getElem?_filter']
    cases m.records[k]? with
    | none => rfl
    | some r =>
      by_cases hk : k.conversation = other
      · simp [hk, h]
      · by_cases hc : k.conversation = conversation <;> simp [hk, hc, Ne.symm h]
  rw [recordsOf, recordsOf, hrecords]

/-- Dropping a conversation twice is dropping it. -/
lemma drop_drop (m : Memory) (conversation : String) :
    (m.drop conversation).drop conversation = m.drop conversation := by
  have hrecords : ((m.drop conversation).drop conversation).records = (m.drop conversation).records := by
    refine Std.ExtTreeMap.ext_getElem? fun {k} => ?_
    rw [drop, drop, Std.ExtTreeMap.getElem?_filter', Std.ExtTreeMap.getElem?_filter',
      Option.filter_filter]
    simp only [Bool.and_self]
  exact congrArg (fun records => { m with records := records }) hrecords

/-- Writing records of other conversations leaves those of a conversation as they are. -/
lemma recordsOf_written_of_ne (m : Memory) (h : ∀ r ∈ batch, r.conversation ≠ conversation) :
    (m.written batch).recordsOf conversation = m.recordsOf conversation := by
  have hrecords : (m.written batch).records.filter (fun k _ => k.conversation = conversation) =
      m.records.filter fun k _ => k.conversation = conversation := by
    refine Std.ExtTreeMap.ext_getElem? fun {k} => ?_
    rw [Std.ExtTreeMap.getElem?_filter', Std.ExtTreeMap.getElem?_filter']
    by_cases hk : k.conversation = conversation
    · have hget : (m.written batch).records[k]? = m.records[k]? :=
        getElem?_insertAll_of_forall_ne fun r hr hkey => h r hr (hk ▸ congrArg Key.conversation hkey)
      rw [hget]
    · simp [hk]
  rw [recordsOf, recordsOf, hrecords]

/-- After the records of a conversation are replaced by records of some messages, it has exactly these. -/
lemma getElem?_replaced {ms : IdMap Message} (hms : IdMap.Keyed Message.id ms)
    {recordOf : Message → Record} (hkey : ∀ m, (recordOf m).key = ⟨conversation, m.id⟩) (m : Memory)
    (id : String) :
    ((m.drop conversation).written (ms.values.map recordOf)).records[(⟨conversation, id⟩ : Key)]? =
      ms[id]?.map recordOf := by
  have hfound : ∀ r, ((m.drop conversation).written (ms.values.map recordOf)).records[
      (⟨conversation, id⟩ : Key)]? = some r → ms[id]?.map recordOf = some r := by
    intro r hr
    rcases mem_or_of_getElem?_insertAll hr with ⟨hmem, hrkey⟩ | ⟨-, hold⟩
    · obtain ⟨x, hx, rfl⟩ := List.mem_map.mp hmem
      obtain ⟨y, hy⟩ := mem_values_iff.mp hx
      have hid : y = id := (hms y x hy).symm.trans (congrArg Key.id ((hkey x).symm.trans hrkey))
      rw [← hid, hy, Option.map_some]
    · exact absurd rfl (getElem?_of_drop hold).2
  cases hx : ms[id]? with
  | none =>
    refine Option.eq_none_iff_forall_ne_some.mpr fun r hr => ?_
    have hnone := hfound r hr
    rw [hx] at hnone
    cases hnone
  | some x =>
    have hmem : recordOf x ∈ ms.values.map recordOf := List.mem_map_of_mem (mem_values_iff.mpr ⟨id, hx⟩)
    obtain ⟨r, -, -, hr⟩ := exists_getElem?_insertAll (m.drop conversation).records hmem
    rw [hkey, hms id x hx] at hr
    have hr' := hfound r hr
    rw [hx] at hr'
    rw [hr']
    exact hr

/-- A conversation has no more records than there are in total. -/
lemma length_recordsOf_le (m : Memory) (conversation : String) :
    (m.recordsOf conversation).length ≤ m.records.size := by
  rw [recordsOf, length_values]
  exact Std.ExtTreeMap.size_filter_le_size

/-- In a keyed cache a record of a conversation is found under its own id. -/
lemma Keyed.mem_recordsOf_iff (h : m.Keyed) :
    r ∈ m.recordsOf conversation ↔ m.records[(⟨conversation, r.id⟩ : Key)]? = some r := by
  rw [Memory.mem_recordsOf_iff]
  constructor
  · rintro ⟨id, hid⟩
    have hkey : r.id = id := congrArg Key.id (h _ r hid)
    rwa [hkey]
  · exact fun hr => ⟨r.id, hr⟩

/-- The records of a conversation by id are those that are stored under the conversation. -/
lemma Keyed.getElem?_byId (h : m.Keyed) (conversation id : String) :
    (Record.byId (m.recordsOf conversation))[id]? = m.records[(⟨conversation, id⟩ : Key)]? := by
  refine IdMap.getElem?_collect_eq fun r => ?_
  constructor
  · rintro ⟨hmem, rfl⟩
    exact h.mem_recordsOf_iff.mp hmem
  · intro hr
    exact ⟨Memory.mem_recordsOf_iff.mpr ⟨id, hr⟩, congrArg Key.id (h _ r hr)⟩

/-- An id has a record of the conversation if there is one under its key. -/
lemma Keyed.mem_byId_iff (h : m.Keyed) {conversation id : String} :
    id ∈ Record.byId (m.recordsOf conversation) ↔ (⟨conversation, id⟩ : Key) ∈ m.records := by
  rw [mem_iff_exists_getElem?, mem_iff_exists_getElem?, h.getElem?_byId]

/-- There are as many ids as records. -/
lemma Keyed.size_byId (h : m.Keyed) (conversation : String) :
    (Record.byId (m.recordsOf conversation)).size = (m.recordsOf conversation).length := by
  rw [recordsOf, length_values, ← Std.ExtTreeMap.length_keys, ← List.length_map (Key.mk conversation)]
  refine (size_eq_length (nodup_map_key Std.ExtTreeMap.nodup_keys _) fun k => ?_).symm
  rw [List.mem_map, mem_iff_exists_getElem?]
  constructor
  · rintro ⟨r, hr⟩
    rw [Std.ExtTreeMap.getElem?_filter', Option.filter_eq_some_iff] at hr
    obtain ⟨hr, hc⟩ := hr
    obtain rfl : k.conversation = conversation := by simpa using hc
    refine ⟨k.id, ?_, rfl⟩
    rw [Std.ExtTreeMap.mem_keys, mem_iff_exists_getElem?]
    exact ⟨r, (h.getElem?_byId _ _).trans hr⟩
  · rintro ⟨id, hid, rfl⟩
    rw [Std.ExtTreeMap.mem_keys, mem_iff_exists_getElem?] at hid
    obtain ⟨r, hr⟩ := hid
    refine ⟨r, ?_⟩
    have hr' := (h.getElem?_byId _ _).symm.trans hr
    rw [Std.ExtTreeMap.getElem?_filter', hr']
    simp

/-- The records of a conversation stand in the order of their ids, if they are stored under them. -/
lemma pairwise_recordsOf (h : ∀ id r, m.records[(⟨conversation, id⟩ : Key)]? = some r → r.id = id) :
    (m.recordsOf conversation).Pairwise fun r r' => compare r.id r'.id = .lt := by
  rw [recordsOf, values_eq_map_toList, List.pairwise_map]
  refine List.Pairwise.imp_of_mem (fun {e e'} he he' hlt => ?_) Std.ExtTreeMap.ordered_keys_toList
  have hkey : ∀ e ∈ (m.records.filter fun k _ => k.conversation = conversation).toList,
      e.1.conversation = conversation ∧ e.2.id = e.1.id := by
    intro e he
    rw [Std.ExtTreeMap.mem_toList_iff_getElem?_eq_some, Std.ExtTreeMap.getElem?_filter',
      Option.filter_eq_some_iff] at he
    obtain ⟨he, hc⟩ := he
    have hc : e.1.conversation = conversation := by simpa using hc
    exact ⟨hc, h e.1.id e.2 (hc ▸ he)⟩
  have hthen : (compare e.1.conversation e'.1.conversation).then (compare e.1.id e'.1.id) = .lt := hlt
  rwa [(hkey e he).1, (hkey e' he').1, Std.compare_self, Ordering.eq_then, ← (hkey e he).2,
    ← (hkey e' he').2] at hthen

/-- The records of a conversation come in increasing order of their ids. -/
lemma Keyed.pairwise_recordsOf (h : m.Keyed) (conversation : String) :
    (m.recordsOf conversation).Pairwise fun r r' => compare r.id r'.id = .lt :=
  Memory.pairwise_recordsOf fun _ r hr => congrArg Key.id (h _ r hr)

end DialogueSync.Cache.Memory
