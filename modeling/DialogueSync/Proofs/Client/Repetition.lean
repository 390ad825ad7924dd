import DialogueSync.Proofs.Client.Retention

/-!
# Synchronising again

After a pass over a cache in memory without a limit the cache is up to date. A second pass over the same
conversation nevertheless fetches every body again if the first one has left records of messages that the
conversation does not have: then the cache holds more records than there are messages and is taken to be out
of date (`wanted_eq_nil_iff`). The first pass drops such `Leftover` records only if there are more records
than messages when stock is taken, before the fetched bodies are added.
-/

namespace DialogueSync.Client.Stores

open Cache (Key Memory Record)
open Remote (Honest)

variable {ρ : Type} [Remote ρ] {conversation : String}

namespace Pass

variable {s s' : Stores ρ Memory} (p : Pass s s' conversation)

/-- Some record that is kept when stock is taken is of a message that the outline does not have. -/
def Leftover : Prop :=
  ∃ id ∉ p.outline.nodes, (⟨conversation, id⟩ : Key) ∈ p.supplied.cache.records

variable (hs : s.degraded = false) (hkeyed : s.cache.Keyed)
include hs hkeyed

/-- A pass over an up-to-date cache wants nothing exactly if there are no more records than messages, or no
messages at all. -/
lemma wanted_eq_nil_iff (hup : UpToDate s.cache conversation p.outline) :
    p.wanted = [] ↔
      (s.cache.recordsOf conversation).length ≤ p.outline.size ∨ p.outline.size = 0 := by
  have hcases := (p.supplied_cases hs).2.2
  rw [hkeyed.size_byId, Nat.not_lt] at hcases
  have hnil : p.wanted = [] ↔ ∀ id ∈ p.outline.nodes,
      HasCurrent p.supplied.cache conversation p.outline id := by
    rw [List.eq_nil_iff_forall_not_mem]
    refine forall_congr' fun id => ?_
    rw [p.mem_wanted_iff hs hkeyed, not_and, not_not]
  rw [hnil]
  obtain ⟨hmore, -, hcache⟩ | ⟨hle, -, hcache⟩ := hcases
  · rw [hcache, or_iff_right (Nat.not_le.mpr hmore), Outline.size,
      ← Std.ExtTreeMap.eq_empty_iff_size_eq_zero]
    constructor
    · intro hall
      refine Std.ExtTreeMap.eq_empty_iff_forall_not_mem.mpr fun id hid => ?_
      obtain ⟨r, hr, -⟩ := hall id hid
      obtain ⟨id', hid'⟩ := Memory.mem_recordsOf_iff.mp hr
      exact (Memory.getElem?_of_drop hid').2 rfl
    · intro hempty id hid
      rw [hempty] at hid
      exact absurd hid Std.ExtTreeMap.not_mem_empty
  · rw [hcache]
    exact iff_of_true hup (Or.inl hle)

/-- Nothing is left over exactly if there were more records than messages, or all of them were of messages
of the outline. -/
lemma not_leftover_iff :
    ¬ p.Leftover ↔ p.outline.size < (s.cache.recordsOf conversation).length ∨
      ∀ r ∈ s.cache.recordsOf conversation, r.id ∈ p.outline.nodes := by
  have hcases := (p.supplied_cases hs).2.2
  rw [hkeyed.size_byId] at hcases
  obtain ⟨hmore, -, hcache⟩ | ⟨hle, -, hcache⟩ := hcases
  · refine iff_of_true ?_ (Or.inl hmore)
    rintro ⟨id, -, hid⟩
    rw [hcache] at hid
    obtain ⟨r, hr⟩ := mem_iff_exists_getElem?.mp hid
    exact (Memory.getElem?_of_drop hr).2 rfl
  · rw [or_iff_right hle]
    constructor
    · intro hnone r hr
      by_contra hid
      refine hnone ⟨r.id, hid, ?_⟩
      rw [hcache]
      exact mem_iff_exists_getElem?.mpr ⟨r, hkeyed.mem_recordsOf_iff.mp hr⟩
    · rintro hall ⟨id, hid, hkey⟩
      rw [hcache] at hkey
      obtain ⟨r, hr⟩ := mem_iff_exists_getElem?.mp hkey
      have hrid : r.id = id := congrArg Key.id (hkeyed _ r hr)
      exact hid (hrid ▸ hall r (Memory.mem_recordsOf_iff.mpr ⟨id, hr⟩))

/-- If something is left over, there are messages. -/
lemma size_pos_of_leftover (h : p.Leftover) : 0 < p.outline.size := by
  have hnot := mt (p.not_leftover_iff hs hkeyed).mpr (not_not.mpr h)
  rw [not_or, Nat.not_lt, not_forall] at hnot
  obtain ⟨hle, r, hr⟩ := hnot
  obtain ⟨hmem, -⟩ := Classical.not_imp.mp hr
  exact Nat.lt_of_lt_of_le (List.length_pos_of_mem hmem) hle

omit hs hkeyed in
/-- If nothing was left over, all records of the conversation are of messages once the fetched bodies are added. -/
lemma mem_nodes_of_written (hnone : ¬ p.Leftover) {id : String}
    (hid : (⟨conversation, id⟩ : Key) ∈ (p.supplied.cache.written p.batch).records) :
    id ∈ p.outline.nodes := by
  rcases p.renews_batch.mem_written_iff.mp hid with hwanted | hkey
  · obtain ⟨id', hid', heq⟩ := List.mem_map.mp hwanted
    obtain rfl : id' = id := (Key.mk.inj heq).2
    exact mem_nodes_of_mem_wanted hid'
  · by_contra hnode
    exact hnone ⟨id, hnode, hkey⟩

/-- Once the fetched bodies are added, there are more records than messages exactly if something was left
over. -/
lemma length_recordsOf_written_le_iff :
    ((p.supplied.cache.written p.batch).recordsOf conversation).length ≤ p.outline.size ↔
      ¬ p.Leftover := by
  have hk := (p.keyed_supplied hkeyed).written p.batch
  constructor
  · rintro hle ⟨id, hid, hkey⟩
    obtain ⟨r, hr⟩ := mem_iff_exists_getElem?.mp (p.renews_batch.mem_written_iff.mpr (Or.inr hkey))
    have hrid : r.id = id := congrArg Key.id (hk _ r hr)
    exact hid (hrid ▸ (p.upToDate_written hs hkeyed).mem_nodes hk hle r (Memory.mem_recordsOf_iff.mpr ⟨id, hr⟩))
  · intro hnone
    rw [← hk.size_byId, Outline.size, ← Std.ExtTreeMap.length_keys (t := p.outline.nodes)]
    refine size_le_length fun id hid => Std.ExtTreeMap.mem_keys.mpr ?_
    exact p.mem_nodes_of_written hnone (hk.mem_byId_iff.mp hid)

end Pass

/-- Synchronising twice with a remote store that is honest about a tree, over a cache in memory without a
limit, succeeds both times. The second time no bodies are fetched exactly if there were more records of the
conversation than it has messages, or if all of them were of messages that it has. -/
theorem refresh_twice_fetches_nothing_iff {holds : ρ → Prop} {t : Tree}
    (honest : Honest holds conversation t) {s : Stores ρ Memory} (hs : holds s.remote)
    (hdegraded : s.degraded = false) (hkeyed : s.cache.Keyed) (hquota : s.cache.quota = none) :
    ∃ outcome outcome' s' s'' made, s.refresh conversation = (.ok outcome, s') ∧
      s'.refresh conversation = (.ok outcome', s'') ∧ s''.calls = s'.calls ++ made ∧
      ((∀ call ∈ made, call.isFetch = false) ↔
        t.size < (s.cache.recordsOf conversation).length ∨
          ∀ r ∈ s.cache.recordsOf conversation, t.contains r.id) := by
  obtain ⟨s', ⟨p⟩⟩ := exists_pass_of_honest honest hs
  obtain ⟨houtline, -⟩ := p.outline_eq honest hs
  obtain ⟨s'', ⟨q⟩⟩ := exists_pass_of_honest honest (p.holds_end honest hs)
  obtain ⟨houtline', -⟩ := q.outline_eq honest (p.holds_end honest hs)
  have hfits : s.cache.Fits := by
    intro limit hlimit
    rw [hquota] at hlimit
    cases hlimit
  have hfirst : (p.supplied.cache.written p.batch).Fits := by
    intro limit hlimit
    cases (hquota.symm.trans (p.quota_supplied hdegraded).symm).trans hlimit
  obtain ⟨hcache, hdegraded'⟩ := p.end_of_fits hdegraded hkeyed hfits hfirst
  have hkeyed' : s'.cache.Keyed := by
    rw [hcache]
    exact (p.keyed_supplied hkeyed).written _
  have hup : UpToDate s'.cache conversation q.outline := by
    rw [hcache, houtline', ← houtline]
    exact p.upToDate_written hdegraded hkeyed
  obtain ⟨made, hmade, hfetch⟩ := q.exists_calls
  refine ⟨_, _, s', s'', made, p.refresh_eq hdegraded, q.refresh_eq hdegraded', hmade, ?_⟩
  have hempty : p.outline.size = 0 → ¬ p.Leftover := fun hzero h =>
    Nat.ne_of_gt (p.size_pos_of_leftover hdegraded hkeyed h) hzero
  rw [hfetch, q.wanted_eq_nil_iff hdegraded' hkeyed' hup, houtline', ← houtline, hcache,
    p.length_recordsOf_written_le_iff hdegraded hkeyed,
    or_iff_left_of_imp hempty, p.not_leftover_iff hdegraded hkeyed,
    houtline, Tree.size_outline]
  simp only [Tree.mem_outline_iff]

/-- A cache without a limit that holds one record of the conversation. -/
def holding (m : Message) : Memory :=
  ({} : Memory).written [Record.own "c" m 0]

/-- Once an outdated question is replaced, nothing is fetched any more. -/
theorem refresh_twice_outdated :
    ∃ outcome outcome' s' s'' made,
      (withExchange (holding (Message.ask "What?" "a" 0))).refresh "c" = (.ok outcome, s') ∧
      s'.refresh "c" = (.ok outcome', s'') ∧ s''.calls = s'.calls ++ made ∧
      ∀ call ∈ made, call.isFetch = false := by
  obtain ⟨outcome, outcome', s', s'', made, hfirst, hsecond, hmade, hiff⟩ :=
    refresh_twice_fetches_nothing_iff (honest_withExchange (holding (Message.ask "What?" "a" 0))).1
      (honest_withExchange (holding (Message.ask "What?" "a" 0))).2 rfl
      ((Memory.keyed_clear {}).written _) rfl
  exact ⟨outcome, outcome', s', s'', made, hfirst, hsecond, hmade, hiff.mpr (by decide +kernel)⟩

/-- With a record of a message that is gone in the cache, the whole exchange is fetched a second time. -/
theorem refresh_twice_leftover :
    let s' := (withExchange (holding (Message.ask "Still there?" "z" 0))).refresh "c"
    let s'' := s'.2.refresh "c"
    s'.1.isOk = true ∧ s''.1.isOk = true ∧
      ∃ call ∈ s''.2.calls.drop s'.2.calls.length, call.isFetch = true := by
  decide +kernel

end DialogueSync.Client.Stores
