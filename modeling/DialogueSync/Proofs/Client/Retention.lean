import DialogueSync.Proofs.Client.Agreement
import DialogueSync.Proofs.Client.Renewal

/-!
# What a pass leaves in the cache

A pass over a cache in memory writes at most twice: the fetched bodies, and what the cache has lost since
stock was taken. Both batches renew messages of the outline (`Pass.renews_batch`, `Pass.renews_lost`), and
either of them may have to clear the cache.

In the end the cache is up to date or given up, except in one case: the fetched bodies fit only once the
cache is cleared, and the conversation as a whole does not fit. Then the second write clears the cache
again, and what the first has written is gone (`upToDate_or_degraded_iff`).
-/

namespace DialogueSync.Client.Stores

open Cache (Key Memory Record)
open Remote (Honest)

variable {ρ : Type} {conversation : String}

/-! ### A pass over a cache in memory -/

namespace Pass

variable [Remote ρ] {s s' : Stores ρ Memory} (p : Pass s s' conversation)

/-- The ids for which no current record was read in the end. -/
def missing : List String :=
  p.outline.nodes.keys.filter fun id => id ∉ matching p.outline (p.reread.getD [])

/-- The missing ids are those of the outline for which no current record was read in the end. -/
lemma mem_missing_iff {id : String} :
    id ∈ p.missing ↔ id ∈ p.outline.nodes ∧ id ∉ matching p.outline (p.reread.getD []) := by
  rw [missing, List.mem_filter, Std.ExtTreeMap.mem_keys, decide_eq_true_eq]

/-- The fetched bodies are written as current records of the wanted messages. -/
lemma renews_batch : Renews conversation p.outline p.wanted p.batch where
  conversation_eq r hr := by
    obtain ⟨n, m, -, -, -, rfl⟩ := p.mem_batch_iff.mp hr
    rfl
  current r hr := by
    obtain ⟨n, m, -, -, hn, rfl⟩ := p.mem_batch_iff.mp hr
    exact ⟨n, hn, rfl⟩
  mem_iff id := by
    constructor
    · intro hid
      obtain ⟨m, hm⟩ := mem_iff_exists_getElem?.mp (p.mem_fetched id hid)
      obtain ⟨n, hn⟩ := mem_iff_exists_getElem?.mp (mem_nodes_of_mem_wanted hid)
      obtain ⟨rfl, -⟩ := p.exists_of_fetched hm
      exact ⟨_, p.mem_batch_iff.mpr ⟨n, m, hid, hm, hn, rfl⟩, rfl⟩
    · rintro ⟨r, hr, rfl⟩
      obtain ⟨n, m, hid, -, -, rfl⟩ := p.mem_batch_iff.mp hr
      exact hid

/-- What the cache has lost is written as current records of the missing messages. -/
lemma renews_lost : Renews conversation p.outline p.missing p.assembly.lost where
  conversation_eq r hr := by
    obtain ⟨n, m, -, -, rfl⟩ := p.mem_lost_iff.mp hr
    rfl
  current r hr := by
    obtain ⟨n, m, -, hn, rfl⟩ := p.mem_lost_iff.mp hr
    refine ⟨n, ?_, rfl⟩
    rwa [Record.id, Outline.id_link]
  mem_iff id := by
    rw [p.mem_missing_iff]
    constructor
    · rintro ⟨hid, hmissing⟩
      obtain ⟨n, hn⟩ := mem_iff_exists_getElem?.mp hid
      obtain ⟨b, hb⟩ := p.exists_bodyOf hn
      -- A body that is not read back is in hand, from the reply or from the first reading.
      have hinHand : ∃ m, b = .inHand m := by
        rcases bodyFor_cases hb with ⟨r, hr, -⟩ | ⟨m, -, rfl⟩ | ⟨r, -, -, rfl⟩
        · exact absurd (mem_iff_exists_getElem?.mpr ⟨r, hr⟩) hmissing
        · exact ⟨m, rfl⟩
        · exact ⟨r.message, rfl⟩
      obtain ⟨m, rfl⟩ := hinHand
      obtain rfl : m.id = id := p.id_eq_of_bodyOf hn hb
      exact ⟨_, p.mem_lost_iff.mpr ⟨n, m, hb, hn, rfl⟩, Outline.id_link _ m⟩
    · rintro ⟨r, hr, rfl⟩
      obtain ⟨n, m, hb, hn, rfl⟩ := p.mem_lost_iff.mp hr
      rw [Record.id, Outline.id_link]
      exact ⟨mem_iff_exists_getElem?.mpr ⟨n, hn⟩, not_mem_of_inHand hb⟩

/-! ### The cache along a pass -/

/-- Up to the first write every record stays under its own key. -/
lemma keyed_supplied (hkeyed : s.cache.Keyed) : p.supplied.cache.Keyed :=
  (p.keeping_supplied (keeps_keyed conversation) hkeyed).2

variable (hs : s.degraded = false)
include hs

/-- Once the bodies have come the cache is in use, with the records that were held or, if those were too
many, without them. -/
lemma supplied_cases :
    p.holdings.writable = true ∧ p.supplied.degraded = false ∧
      (p.outline.size < (Record.byId (s.cache.recordsOf conversation)).size ∧
          p.holdings.held = ∅ ∧ p.supplied.cache = s.cache.drop conversation ∨
        ¬ p.outline.size < (Record.byId (s.cache.recordsOf conversation)).size ∧
          p.holdings.held = Record.byId (s.cache.recordsOf conversation) ∧
          p.supplied.cache = s.cache) := by
  have hdegraded : p.asked.degraded = false := by
    rw [p.asked_eq]
    exact hs
  have hcache : p.asked.cache = s.cache := by
    rw [p.asked_eq]
  have h := takeStock_cases hdegraded conversation p.outline
  rw [p.takeStock_eq, hcache] at h
  rw [p.supplied_eq]
  exact h

lemma quota_supplied : p.supplied.cache.quota = s.cache.quota := by
  obtain ⟨-, -, ⟨-, -, hcache⟩ | ⟨-, -, hcache⟩⟩ := p.supplied_cases hs
  · rw [hcache]
    rfl
  · rw [hcache]

lemma fits_supplied (hfits : s.cache.Fits) : p.supplied.cache.Fits := by
  obtain ⟨-, -, ⟨-, -, hcache⟩ | ⟨-, -, hcache⟩⟩ := p.supplied_cases hs
  · rw [hcache]
    exact fun limit hlimit => Nat.le_trans Std.ExtTreeMap.size_filter_le_size (hfits limit hlimit)
  · rwa [hcache]

/-- What is held is what the cache has of the conversation. -/
lemma getElem?_held (hkeyed : s.cache.Keyed) (id : String) :
    p.holdings.held[id]? = p.supplied.cache.records[(⟨conversation, id⟩ : Key)]? := by
  obtain ⟨-, -, ⟨-, hheld, hcache⟩ | ⟨-, hheld, hcache⟩⟩ := p.supplied_cases hs
  · rw [hheld, hcache, Std.ExtTreeMap.getElem?_empty]
    refine (Option.eq_none_iff_forall_ne_some.mpr fun r hr => ?_).symm
    exact (Memory.getElem?_of_drop hr).2 rfl
  · rw [hheld, hcache, hkeyed.getElem?_byId]

/-- The wanted messages are those of which the cache has no current record. -/
lemma mem_wanted_iff (hkeyed : s.cache.Keyed) {id : String} :
    id ∈ p.wanted ↔
      id ∈ p.outline.nodes ∧ ¬ HasCurrent p.supplied.cache conversation p.outline id := by
  rw [wanted, Client.mem_wanted_iff, hasCurrent_iff (p.keyed_supplied hkeyed),
    mem_iff_exists_getElem?, p.getElem?_held hs hkeyed]
  constructor
  · rintro ⟨n, hn, hnone⟩
    refine ⟨⟨n, hn⟩, ?_⟩
    rintro ⟨r, n', hr, hn', hcur⟩
    rw [hn] at hn'
    obtain rfl := Option.some.inj hn'
    exact hnone r hr hcur
  · rintro ⟨⟨n, hn⟩, hnone⟩
    exact ⟨n, hn, fun r hr hcur => hnone ⟨r, n, hr, hn, hcur⟩⟩

lemma cached_eq : p.cached = (p.supplied.store p.batch).2 := by
  rw [cached, storeIf, (p.supplied_cases hs).1, if_pos rfl]

lemma store_lost_eq : (p.checked.store p.assembly.lost).2 = s' := by
  have h := p.end_eq
  rwa [storeIf, (p.supplied_cases hs).1, if_pos rfl] at h

omit hs in
/-- Reading again changes nothing about the cache. -/
lemma checked_eq (hcached : p.cached.degraded = false) :
    p.reread = some (p.cached.cache.recordsOf conversation) ∧ p.checked.degraded = false ∧
      p.checked.cache = p.cached.cache := by
  have h := p.cachedRecords_cached
  rw [cachedRecords_eq hcached] at h
  obtain ⟨hreread, hchecked⟩ := Prod.mk.inj h
  refine ⟨hreread.symm, ?_, ?_⟩
  · rw [← hchecked]
    exact hcached
  · rw [← hchecked]
    rfl

omit hs in
/-- The missing messages are those of which the cache has no current record any more. -/
lemma mem_missing_iff_not_hasCurrent (hcached : p.cached.degraded = false) {id : String} :
    id ∈ p.missing ↔
      id ∈ p.outline.nodes ∧ ¬ HasCurrent p.cached.cache conversation p.outline id := by
  rw [p.mem_missing_iff, (p.checked_eq hcached).1, Option.getD_some, mem_matching_iff]

/-! ### When the cache had to be cleared -/

section Cleared

omit hs

/-- A batch that does not fit beside what is there has a wanted message. -/
lemma wanted_ne_nil (hs : s.degraded = false) (hfits : s.cache.Fits)
    (hfirst : ¬ (p.supplied.cache.written p.batch).Fits) : p.wanted ≠ [] := by
  intro hnil
  have hbatch : p.batch = [] := by
    refine List.eq_nil_iff_forall_not_mem.mpr fun r hr => ?_
    have hid := (p.renews_batch.mem_iff _).mpr ⟨r, hr, rfl⟩
    rw [hnil] at hid
    cases hid
  rw [hbatch, Memory.written_nil] at hfirst
  exact hfirst (p.fits_supplied hs hfits)

variable (hcache : p.cached.cache = p.supplied.cache.clear.written p.batch)
include hcache

/-- In the cleared cache there are current records of the wanted messages only. -/
lemma hasCurrent_cleared_iff {id : String} :
    HasCurrent p.cached.cache conversation p.outline id ↔ id ∈ p.wanted := by
  rw [hcache, p.renews_batch.hasCurrent_written_iff (Memory.keyed_clear _)]
  exact or_iff_left not_hasCurrent_clear

/-- Both batches together have no more records than there are messages. -/
lemma size_written_lost_le :
    (p.cached.cache.written p.assembly.lost).records.size ≤ p.outline.size := by
  have hlength : (p.outline.nodes.keys.map (Key.mk conversation)).length = p.outline.size := by
    rw [List.length_map, Std.ExtTreeMap.length_keys, Outline.size]
  rw [← hlength]
  refine size_le_length fun key hkey => ?_
  rw [p.renews_lost.mem_written_iff, hcache, p.renews_batch.mem_written_iff] at hkey
  rcases hkey with hkey | hkey | hkey
  · obtain ⟨id, hid, rfl⟩ := List.mem_map.mp hkey
    exact List.mem_map_of_mem (Std.ExtTreeMap.mem_keys.mpr (p.mem_missing_iff.mp hid).1)
  · obtain ⟨id, hid, rfl⟩ := List.mem_map.mp hkey
    exact List.mem_map_of_mem (Std.ExtTreeMap.mem_keys.mpr (mem_nodes_of_mem_wanted hid))
  · exact absurd hkey Std.ExtTreeMap.not_mem_empty

variable (hcached : p.cached.degraded = false)
include hcached

/-- Everything that was not wanted is missing from the cleared cache. -/
lemma mem_missing_iff_of_cleared {id : String} :
    id ∈ p.missing ↔ id ∈ p.outline.nodes ∧ id ∉ p.wanted := by
  rw [p.mem_missing_iff_not_hasCurrent hcached, p.hasCurrent_cleared_iff hcache]

/-- What is missing from the cleared cache was there before. -/
lemma length_missing_le (hs : s.degraded = false) (hkeyed : s.cache.Keyed) :
    p.missing.length ≤ p.supplied.cache.records.size := by
  rw [← List.length_map (Key.mk conversation)]
  have hnodup : p.missing.Nodup := Std.ExtTreeMap.nodup_keys.filter _
  refine length_le_size (Memory.nodup_map_key hnodup _) fun key hkey => ?_
  obtain ⟨id, hid, rfl⟩ := List.mem_map.mp hkey
  obtain ⟨hnode, hwanted⟩ := (p.mem_missing_iff_of_cleared hcache hcached).mp hid
  rw [p.mem_wanted_iff hs hkeyed, not_and, not_not] at hwanted
  obtain ⟨r, -, hr, -⟩ := (hasCurrent_iff (p.keyed_supplied hkeyed)).mp (hwanted hnode)
  exact mem_iff_exists_getElem?.mpr ⟨r, hr⟩

end Cleared

/-! ### What is in the cache in the end -/

variable (hkeyed : s.cache.Keyed)
include hkeyed

/-- Once the fetched bodies are added to what is there, the cache is up to date. -/
lemma upToDate_written :
    UpToDate (p.supplied.cache.written p.batch) conversation p.outline := by
  intro id hid
  rw [p.renews_batch.hasCurrent_written_iff (p.keyed_supplied hkeyed)]
  by_cases hwanted : id ∈ p.wanted
  · exact Or.inl hwanted
  · refine Or.inr (by_contra fun hcur => hwanted ?_)
    exact (p.mem_wanted_iff hs hkeyed).mpr ⟨hid, hcur⟩

variable (hfits : s.cache.Fits)
include hfits

omit hkeyed in
/-- If the fetched bodies can be added to what is there, they are. -/
lemma cached_of_fits (hfirst : (p.supplied.cache.written p.batch).Fits) :
    p.cached.cache = p.supplied.cache.written p.batch ∧ p.cached.degraded = false := by
  have hcases := store_cases (p.supplied_cases hs).2.1 (p.fits_supplied hs hfits) p.batch
  rw [← p.cached_eq hs] at hcases
  rcases hcases with ⟨-, hcache, hcached⟩ | ⟨hnot, -⟩
  · exact ⟨hcache, hcached⟩
  · exact absurd hfirst hnot

/-- If the fetched bodies can be added to what is there, nothing is lost. -/
lemma lost_eq_nil (hfirst : (p.supplied.cache.written p.batch).Fits) : p.assembly.lost = [] := by
  obtain ⟨hcache, hcached⟩ := p.cached_of_fits hs hfits hfirst
  refine List.eq_nil_iff_forall_not_mem.mpr fun r hr => ?_
  have hmissing : r.id ∈ p.missing := (p.renews_lost.mem_iff _).mpr ⟨r, hr, rfl⟩
  obtain ⟨hnode, hcur⟩ := (p.mem_missing_iff_not_hasCurrent hcached).mp hmissing
  rw [hcache] at hcur
  exact hcur (p.upToDate_written hs hkeyed r.id hnode)

/-- If the fetched bodies can be added to what is there, the pass ends with reading the cache again. -/
lemma checked_eq_end (hfirst : (p.supplied.cache.written p.batch).Fits) : p.checked = s' := by
  have h := p.store_lost_eq hs
  rwa [p.lost_eq_nil hs hkeyed hfits hfirst, store_nil] at h

/-- If the fetched bodies can be added to what is there, nothing is lost and nothing else is written. -/
lemma end_of_fits (hfirst : (p.supplied.cache.written p.batch).Fits) :
    s'.cache = p.supplied.cache.written p.batch ∧ s'.degraded = false := by
  obtain ⟨hcache, hcached⟩ := p.cached_of_fits hs hfits hfirst
  have hend := p.checked_eq_end hs hkeyed hfits hfirst
  obtain ⟨-, hdegraded, hchecked⟩ := p.checked_eq hcached
  have hcache' := (congrArg Stores.cache hend).symm.trans (hchecked.trans hcache)
  exact ⟨hcache', (congrArg Stores.degraded hend).symm.trans hdegraded⟩

/-- If the cache had to be cleared for the fetched bodies, what was there before is written again. It is up
to date after that exactly if the whole conversation is within the limit. -/
lemma end_of_cleared (hfirst : ¬ (p.supplied.cache.written p.batch).Fits)
    (hclear : (p.supplied.cache.clear.written p.batch).Fits)
    (hcache : p.cached.cache = p.supplied.cache.clear.written p.batch)
    (hcached : p.cached.degraded = false) :
    s'.degraded = true ∨ UpToDate s'.cache conversation p.outline ↔
      ∀ limit, s.cache.quota = some limit → p.outline.size ≤ limit := by
  have hquota : p.cached.cache.quota = s.cache.quota := by
    rw [hcache]
    exact p.quota_supplied hs
  have hk : p.cached.cache.Keyed := by
    rw [hcache]
    exact (Memory.keyed_clear _).written _
  obtain ⟨-, hdegraded, hchecked⟩ := p.checked_eq hcached
  have hcases := store_cases hdegraded (by rwa [hchecked, hcache]) p.assembly.lost
  rw [p.store_lost_eq hs, hchecked] at hcases
  obtain ⟨hsecond, hcache', -⟩ | ⟨hsecond, ⟨-, hcache', hdegraded'⟩ | ⟨hthird, -⟩⟩ := hcases
  · have hup : UpToDate s'.cache conversation p.outline := by
      intro id hid
      rw [hcache', p.renews_lost.hasCurrent_written_iff hk, p.hasCurrent_cleared_iff hcache,
        p.mem_missing_iff_of_cleared hcache hcached]
      by_cases hwanted : id ∈ p.wanted
      · exact Or.inr hwanted
      · exact Or.inl ⟨hid, hwanted⟩
    refine iff_of_true (Or.inr hup) fun limit hlimit => ?_
    have hsize := hup.size_le (by rw [hcache']; exact hk.written _)
    rw [hcache'] at hsize
    exact Nat.le_trans hsize (hsecond limit (hquota.trans hlimit))
  · refine iff_of_false ?_ fun hall => ?_
    · rintro (hdegraded | hup)
      · rw [hdegraded'] at hdegraded
        cases hdegraded
      · -- Of the wanted messages nothing is left after the cache was cleared for the missing ones.
        obtain ⟨id, hid⟩ := List.exists_mem_of_ne_nil _ (p.wanted_ne_nil hs hfits hfirst)
        have hleft := hup id (mem_nodes_of_mem_wanted hid)
        rw [hcache', p.renews_lost.hasCurrent_written_iff (Memory.keyed_clear _),
          or_iff_left not_hasCurrent_clear, p.mem_missing_iff_of_cleared hcache hcached] at hleft
        exact hleft.2 hid
    · obtain ⟨limit, hlimit, hlt⟩ := Memory.not_fits_iff.mp hsecond
      have hsize := p.size_written_lost_le hcache
      have hle := hall limit (hquota.symm.trans hlimit)
      omega
  · -- The missing messages alone do fit, since they were all there before.
    obtain ⟨limit, hlimit, hlt⟩ := Memory.not_fits_iff.mp hthird
    have hlimit' : s.cache.quota = some limit := hquota.symm.trans hlimit
    have hbefore := p.fits_supplied hs hfits limit ((p.quota_supplied hs).trans hlimit')
    have hmissing := p.length_missing_le hcache hcached hs hkeyed
    rw [p.renews_lost.size_clear_written (Std.ExtTreeMap.nodup_keys.filter _)] at hlt
    omega

/-- A pass leaves the cache up to date or given up exactly if the whole conversation is within the limit, or
the wanted messages alone exceed it. -/
lemma upToDate_iff :
    s'.degraded = true ∨ UpToDate s'.cache conversation p.outline ↔
      ∀ limit, s.cache.quota = some limit →
        p.outline.size ≤ limit ∨ limit < p.wanted.length := by
  have hk := p.keyed_supplied hkeyed
  have hquota := p.quota_supplied hs
  by_cases hfirst : (p.supplied.cache.written p.batch).Fits
  · obtain ⟨hcache, -⟩ := p.end_of_fits hs hkeyed hfits hfirst
    have hup := p.upToDate_written hs hkeyed
    refine iff_of_true (Or.inr (by rwa [hcache])) fun limit hlimit => Or.inl ?_
    exact Nat.le_trans (hup.size_le (hk.written _)) (hfirst limit (hquota.trans hlimit))
  · have hcases := store_cases (p.supplied_cases hs).2.1 (p.fits_supplied hs hfits) p.batch
    rw [← p.cached_eq hs, or_iff_right fun h => hfirst h.1] at hcases
    have hsize := p.renews_batch.size_clear_written (k := p.supplied.cache) (nodup_wanted _ _)
    obtain ⟨-, ⟨hclear, hcache, hcached⟩ | ⟨hclear, hcached⟩⟩ := hcases
    · rw [p.end_of_cleared hs hkeyed hfits hfirst hclear hcache hcached]
      refine forall₂_congr fun limit hlimit => ?_
      have hle := hclear limit (hquota.trans hlimit)
      rw [hsize] at hle
      exact (or_iff_left (Nat.not_lt.mpr hle)).symm
    · have hdegraded : s'.degraded = true :=
        (p.cacheSteps_end (fun _ => True) trivial).degraded
          ((p.cacheSteps_checked fun _ => True).degraded hcached)
      refine iff_of_true (Or.inl hdegraded) fun limit hlimit => Or.inr ?_
      obtain ⟨limit', hlimit', hlt⟩ := Memory.not_fits_iff.mp hclear
      obtain rfl := Option.some.inj ((hquota.trans hlimit).symm.trans hlimit')
      rwa [hsize] at hlt

end Pass

/-! ### Synchronising -/

/-- A full fetch leaves alone whether the cache has been given up. -/
lemma degraded_refreshWhole [Remote ρ] {s : Stores ρ Memory} (hs : s.degraded = true)
    (conversation : String) : (s.refreshWhole conversation).2.degraded = true := by
  rw [snd_refreshWhole hs]
  exact hs

/-- Synchronising with a remote store that is honest about a well-formed tree succeeds. It leaves a cache in
memory that was within its limit given up, or with a current record of every message, exactly if the cache
was given up before, or there is no limit, or the whole conversation is within the limit, or the messages
that the cache has no current record of exceed the limit by themselves. -/
theorem upToDate_or_degraded_iff [Remote ρ] {holds : ρ → Prop} {t : Tree}
    (honest : Honest holds conversation t) (ht : t.WellFormed) {s : Stores ρ Memory}
    (hs : holds s.remote) (hkeyed : s.cache.Keyed) (hfits : s.cache.Fits) :
    ∃ outcome s', s.refresh conversation = (.ok outcome, s') ∧
      (s'.degraded = true ∨ UpToDate s'.cache conversation t.outline ↔
        s.degraded = true ∨ ∀ limit, s.cache.quota = some limit →
          t.size ≤ limit ∨
            limit < (wanted t.outline (Record.byId (s.cache.recordsOf conversation))).length) := by
  cases hdegraded : s.degraded with
  | true =>
    obtain ⟨report, s', hwhole⟩ := refreshWhole_of_honest honest ht hs
    have hdegraded' := degraded_refreshWhole hdegraded conversation
    rw [hwhole] at hdegraded'
    refine ⟨(t, report), s', ?_, iff_of_true (Or.inl hdegraded') (Or.inl rfl)⟩
    rw [refresh, if_pos hdegraded, hwhole]
  | false =>
    obtain ⟨s', ⟨p⟩⟩ := exists_pass_of_honest honest hs
    obtain ⟨houtline, -⟩ := p.outline_eq honest hs
    refine ⟨_, s', p.refresh_eq hdegraded, ?_⟩
    rw [← Tree.size_outline, ← houtline, p.upToDate_iff hdegraded hkeyed hfits,
      or_iff_right Bool.false_ne_true]
    refine forall₂_congr fun limit hlimit => ?_
    obtain ⟨-, -, ⟨hmore, -, -⟩ | ⟨-, hheld, -⟩⟩ := p.supplied_cases hdegraded
    · -- There were more records than messages, and all of them within the limit.
      rw [hkeyed.size_byId] at hmore
      have hle := s.cache.length_recordsOf_le conversation
      have hsize : p.outline.size ≤ limit := by
        have hlimit' := hfits limit hlimit
        omega
      exact iff_of_true (Or.inl hsize) (Or.inl hsize)
    · rw [Pass.wanted, hheld]

/-- A cache that holds the question of the exchange, with a limit. -/
def holdingQuestion (limit : Nat) : Memory :=
  ({ quota := some limit } : Memory).written [Record.own "c" (Message.ask "Why?" "a" 1) 0]

/-- With room for both messages of the exchange the cache is up to date in the end. -/
theorem upToDate_exchange :
    ∃ outcome s', (withExchange (holdingQuestion 2)).refresh "c" = (.ok outcome, s') ∧
      (s'.degraded = true ∨ UpToDate s'.cache "c" (Tree.ofHistory exchange).outline) := by
  have hfits : (holdingQuestion 2).Fits := by
    intro limit hlimit
    obtain rfl := Option.some.inj hlimit
    decide +kernel
  obtain ⟨outcome, s', hrefresh, hiff⟩ := upToDate_or_degraded_iff
    (honest_withExchange (holdingQuestion 2)).1 (Tree.wellFormed_ofHistory exchange)
    (honest_withExchange (holdingQuestion 2)).2
    ((Memory.keyed_clear { quota := some 2 }).written _) hfits
  refine ⟨outcome, s', hrefresh, hiff.mpr (Or.inr fun limit hlimit => Or.inl ?_)⟩
  obtain rfl := Option.some.inj hlimit
  decide +kernel

/-- With room for one message, which the cache is full with, the answer is written and lost again. -/
theorem not_upToDate_exchange :
    (holdingQuestion 1).total ≤ 1 ∧
      ((withExchange (holdingQuestion 1)).refresh "c").1.isOk = true ∧
      ((withExchange (holdingQuestion 1)).refresh "c").2.degraded = false ∧
      ¬ UpToDate ((withExchange (holdingQuestion 1)).refresh "c").2.cache "c"
        (Tree.ofHistory exchange).outline := by
  decide +kernel

end DialogueSync.Client.Stores
