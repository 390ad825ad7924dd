import DialogueSync.Proofs.Client.Inheritance
import DialogueSync.Proofs.Client.Repetition
import DialogueSync.Proofs.Client.Unlimited
import DialogueSync.Proofs.Client.Wholeness

/-!
# Converging to the remote store

A cache in memory without a limit `Reflects` an outline if it has one record of every message of it, under the
fingerprint that the outline gives, and no other record of the conversation. One pass may not be enough for that,
because it leaves records of messages that are gone, as long as they are not too many. But it leaves the cache up to
date (`Unlimited.upToDate_of_refresh`), and a pass over a cache that is up to date finds no such records, or more
records than messages, and then drops all of them (`Unlimited.reflects_of_upToDate`). So two synchronisations are
enough, each of which may be a differential pass or a full fetch (`refresh_twice_reflects`).
-/

namespace DialogueSync.Client.Stores

open Cache (Key Memory Record)
open Remote (Steady)

variable {ρ : Type} {conversation : String} {o : Outline} {t : Tree} {k : Memory}

/-! ### Caches that reflect an outline -/

/-- There is one record of every message of the outline, under its fingerprint, and no other of the
conversation. -/
def Reflects (k : Memory) (conversation : String) (o : Outline) : Prop :=
  ∀ id, k.records[(⟨conversation, id⟩ : Key)]?.map Record.fingerprint = o.nodes[id]?.map Node.fingerprint

/-- An up-to-date cache reflects the outline if all records of the conversation are of its messages. -/
lemma UpToDate.reflects (hk : k.Keyed) (h : UpToDate k conversation o)
    (hall : ∀ id, (⟨conversation, id⟩ : Key) ∈ k.records → id ∈ o.nodes) : Reflects k conversation o := by
  intro id
  cases hn : o.nodes[id]? with
  | none =>
    have hkey : (⟨conversation, id⟩ : Key) ∉ k.records := by
      intro hkey
      obtain ⟨n, hn'⟩ := mem_iff_exists_getElem?.mp (hall id hkey)
      cases hn.symm.trans hn'
    rw [Std.ExtTreeMap.getElem?_eq_none hkey]
    rfl
  | some n =>
    obtain ⟨r, n', hr, hn', hcur⟩ := (hasCurrent_iff hk).mp (h id (mem_iff_exists_getElem?.mpr ⟨n, hn⟩))
    obtain rfl := Option.some.inj (hn.symm.trans hn')
    rw [hr]
    exact congrArg some hcur

/-- A cache that reflects an outline is up to date with it. -/
lemma Reflects.upToDate (hk : k.Keyed) (h : Reflects k conversation o) : UpToDate k conversation o := by
  intro id hid
  obtain ⟨n, hn⟩ := mem_iff_exists_getElem?.mp hid
  have hr := h id
  rw [hn, Option.map_some, Option.map_eq_some_iff] at hr
  obtain ⟨r, hr, hcur⟩ := hr
  exact (hasCurrent_iff hk).mpr ⟨r, n, hr, hn, hcur⟩

/-- The records of a cache that reflects an outline, in the order of the ids. -/
lemma Reflects.recordsOf_eq (hk : k.Keyed) (h : Reflects k conversation o) :
    (k.recordsOf conversation).map (fun r => (r.id, r.fingerprint)) =
      o.nodes.toList.map fun e => (e.1, e.2.fingerprint) := by
  refine eq_of_ordered (List.pairwise_map.mpr (hk.pairwise_recordsOf conversation))
    (List.pairwise_map.mpr Std.ExtTreeMap.ordered_keys_toList) ?_
  rintro ⟨id, fingerprint⟩
  have hfound : (k.records[(⟨conversation, id⟩ : Key)]?.map Record.fingerprint = some fingerprint) ↔
      o.nodes[id]?.map Node.fingerprint = some fingerprint := by rw [h id]
  rw [Option.map_eq_some_iff, Option.map_eq_some_iff] at hfound
  rw [List.mem_map, List.mem_map]
  constructor
  · rintro ⟨r, hr, heq⟩
    obtain ⟨rfl, rfl⟩ := Prod.mk.inj heq
    obtain ⟨n, hn, hfingerprint⟩ := hfound.mp ⟨r, hk.mem_recordsOf_iff.mp hr, rfl⟩
    exact ⟨(r.id, n), Std.ExtTreeMap.mem_toList_iff_getElem?_eq_some.mpr hn, by rw [hfingerprint]⟩
  · rintro ⟨⟨id', n⟩, hn, heq⟩
    obtain ⟨rfl, rfl⟩ := Prod.mk.inj heq
    obtain ⟨r, hr, hfingerprint⟩ :=
      hfound.mpr ⟨n, Std.ExtTreeMap.mem_toList_iff_getElem?_eq_some.mp hn, rfl⟩
    have hid : r.id = id' := congrArg Key.id (hk _ r hr)
    exact ⟨r, Memory.mem_recordsOf_iff.mpr ⟨id', hr⟩, by rw [hid, hfingerprint]⟩

/-! ### Asking a steady store -/

section Steady

variable {κ : Type} [Remote ρ] [Cache κ] {holds : ρ → Prop} {s s' : Stores ρ κ}

/-- A store that is steady is so after every step of synchronising. -/
lemma SyncSteps.holds_of_steady {batch : List Record → Prop} (h : SyncSteps conversation batch s s')
    (steady : Steady holds conversation t) (hs : holds s.remote) : holds s'.remote :=
  h.remote_holds holds (fun a ha => (steady.outline a ha).1) (fun a ids ha => (steady.bodies a ids ha).1)
    (fun a ha => (steady.snapshot a ha).1) hs

/-- The outline that a pass gets is the one that the remote keeps. -/
lemma Pass.outline_eq_of_steady (p : Pass s s' conversation) (steady : Steady holds conversation t)
    (hs : holds s.remote) : p.outline = t.outline :=
  (steady.outline s.remote hs).2 p.outline (congrArg Prod.fst p.askOutline_eq)

end Steady

/-! ### Synchronising -/

variable [Remote ρ] {holds : ρ → Prop} {s s' s'' : Stores ρ Memory} {outcome outcome' : Tree × Report}

/-- The messages of the tree of a snapshot are those of the outline, if it delivers just these. -/
lemma reflects_replaced {full : Snapshot} (hfull : ∀ id, Delivers full id ↔ id ∈ full.outline.nodes)
    (k : Memory) (now : Int64) :
    Reflects ((k.drop conversation).written
      ((treeOf full).messages.values.map (snapshotRecord conversation full now))) conversation full.outline := by
  intro id
  have hkeyed : IdMap.Keyed Message.id (treeOf full).messages :=
    (Tree.wellFormed_ofMessages _ _).toLinked.keyed
  rw [Memory.getElem?_replaced hkeyed
    (fun m => (rfl : (snapshotRecord conversation full now m).key = ⟨conversation, m.id⟩)) k]
  have hmem := mem_treeOf_iff.trans (hfull id)
  cases hm : (treeOf full).messages[id]? with
  | none =>
    have hid : id ∉ full.outline.nodes := by
      intro hid
      obtain ⟨m, hm'⟩ := mem_iff_exists_getElem?.mp (hmem.mpr hid)
      cases hm.symm.trans hm'
    rw [Std.ExtTreeMap.getElem?_eq_none hid]
    rfl
  | some m =>
    obtain ⟨n, hn⟩ := mem_iff_exists_getElem?.mp (hmem.mp (mem_iff_exists_getElem?.mpr ⟨m, hm⟩))
    obtain rfl : m.id = id := hkeyed id m hm
    simp [snapshotRecord, hn]

namespace Unlimited

variable (h : s.Unlimited) (steady : Steady holds conversation t) (hs : holds s.remote)
include h steady hs

/-- After a full fetch the cache reflects the outline. -/
lemma reflects_of_refreshWhole (hwhole : s.refreshWhole conversation = (.ok outcome, s')) :
    Reflects s'.cache conversation t.outline := by
  obtain ⟨full, asked, hask, -, rfl⟩ := exists_snapshot_of_refreshWhole hwhole
  obtain ⟨-, hcache, hdegraded⟩ := askSnapshot_frame hask
  obtain ⟨houtline, hbodies, hmem⟩ := (steady.snapshot s.remote hs).2 full (congrArg Prod.fst hask)
  rw [(h.congr hcache hdegraded).cache_overwrite, ← houtline]
  refine reflects_replaced (fun id => ?_) _ _
  rw [houtline, Tree.mem_outline_iff]
  constructor
  · rintro ⟨m, hm, rfl⟩
    exact hmem m hm
  · intro hid
    exact hbodies.exists_mem id (Std.ExtTreeMap.mem_keys.mpr (Std.ExtTreeMap.contains_iff_mem.mp hid)) hid

/-- Synchronising that succeeds ends with a full fetch, after which the cache reflects the outline, or it is a
pass. -/
lemma reflects_or_pass (hrefresh : s.refresh conversation = (.ok outcome, s')) :
    Reflects s'.cache conversation t.outline ∨
      ∃ p : Pass s s' conversation, p.outline = t.outline ∧ s'.cache = p.supplied.cache.written p.batch := by
  rcases refresh_cases hrefresh with ⟨-, p, -⟩ | ⟨-, e, failed, hchanged, hwhole⟩ | ⟨hdegraded, -⟩
  · have hfits : (p.supplied.cache.written p.batch).Fits := h.fits (p.quota_supplied h.degraded_eq)
    exact Or.inr ⟨p, p.outline_eq_of_steady steady hs,
      (p.end_of_fits h.degraded_eq h.keyed (h.fits rfl) hfits).1⟩
  · have hfailed : SyncSteps conversation (fun _ => True) s failed :=
      syncSteps_of_refreshChanged_error hchanged
    exact Or.inl ((h.of_refreshChanged_error hchanged).1.reflects_of_refreshWhole steady
      (hfailed.holds_of_steady steady hs) hwhole)
  · cases h.degraded_eq.symm.trans hdegraded

/-- Once a conversation was synchronised, the cache is up to date. -/
lemma upToDate_of_refresh (hrefresh : s.refresh conversation = (.ok outcome, s')) :
    UpToDate s'.cache conversation t.outline := by
  rcases h.reflects_or_pass steady hs hrefresh with hreflects | ⟨p, houtline, hcache⟩
  · exact hreflects.upToDate (h.synced hrefresh).1.keyed
  · rw [hcache, ← houtline]
    exact p.upToDate_written h.degraded_eq h.keyed

/-- If the cache was up to date when a conversation was synchronised, it reflects the outline afterwards. -/
lemma reflects_of_upToDate (hup : UpToDate s.cache conversation t.outline)
    (hrefresh : s.refresh conversation = (.ok outcome, s')) : Reflects s'.cache conversation t.outline := by
  rcases h.reflects_or_pass steady hs hrefresh with hreflects | ⟨p, houtline, hcache⟩
  · exact hreflects
  · rw [← houtline] at hup ⊢
    -- Nothing is left over: if there are records of other messages, they make the records too many.
    have hnone : ¬ p.Leftover := by
      rw [p.not_leftover_iff h.degraded_eq h.keyed, or_iff_not_imp_left, Nat.not_lt]
      exact hup.mem_nodes h.keyed
    rw [hcache]
    exact (p.upToDate_written h.degraded_eq h.keyed).reflects ((p.keyed_supplied h.keyed).written p.batch)
      fun id hid => p.mem_nodes_of_written hnone hid

end Unlimited

/-- Once a conversation was synchronised twice with a remote store that answers from the same tree, or fails, each
time it is asked, the records of the conversation are one for each message of the tree, under its fingerprint,
whatever a cache in memory without a limit has held before. The records of the other conversations are the same as
before. -/
theorem refresh_twice_reflects (h : s.Unlimited) (steady : Steady holds conversation t) (hs : holds s.remote)
    (hfirst : s.refresh conversation = (.ok outcome, s'))
    (hsecond : s'.refresh conversation = (.ok outcome', s'')) :
    (s''.cache.recordsOf conversation).map (fun r => (r.id, r.fingerprint)) =
        t.outline.nodes.toList.map (fun e => (e.1, e.2.fingerprint)) ∧
      ∀ other, other ≠ conversation → s''.cache.recordsOf other = s.cache.recordsOf other := by
  have hsteps := syncSteps_refresh s conversation
  rw [hfirst] at hsteps
  have hs' := hsteps.holds_of_steady steady hs
  have honly := h.onlyIn_refresh hfirst
  have honly' := honly.unlimited.onlyIn_refresh hsecond
  have hup := h.upToDate_of_refresh steady hs hfirst
  have hreflects := honly.unlimited.reflects_of_upToDate steady hs' hup hsecond
  refine ⟨hreflects.recordsOf_eq honly'.unlimited.keyed, fun other hother => ?_⟩
  rw [honly'.recordsOf_eq other hother, honly.recordsOf_eq other hother]

/-- A cache with an outdated record of the question, one of a message that is gone, and one of another
conversation. -/
def cluttered : Memory :=
  ({} : Memory).written [Record.own "c" (Message.ask "What?" "a" 0) 0,
    Record.own "c" (Message.ask "Still there?" "z" 0) 0, Record.own "d" (Message.ask "Who?" "y" 0) 0]

/-- Once the exchange was synchronised twice, its two records are there, and that of the other conversation. -/
theorem refresh_twice_reflects_cluttered :
    ∃ outcome outcome' s' s'', (withExchange cluttered).refresh "c" = (.ok outcome, s') ∧
      s'.refresh "c" = (.ok outcome', s'') ∧
      (s''.cache.recordsOf "c").map (fun r => (r.id, r.fingerprint)) =
        (Tree.ofHistory exchange).outline.nodes.toList.map (fun e => (e.1, e.2.fingerprint)) ∧
      ∀ other, other ≠ "c" → s''.cache.recordsOf other = cluttered.recordsOf other := by
  obtain ⟨honest, hs⟩ := honest_withExchange cluttered
  obtain ⟨s', ⟨p⟩⟩ := exists_pass_of_honest honest hs
  obtain ⟨s'', ⟨q⟩⟩ := exists_pass_of_honest honest (p.holds_end honest hs)
  have hunlimited : (withExchange cluttered).Unlimited := ⟨rfl, (Memory.keyed_clear {}).written _, rfl⟩
  have hfirst := p.refresh_eq hunlimited.degraded_eq
  have hsecond := q.refresh_eq (hunlimited.synced hfirst).1.degraded_eq
  exact ⟨_, _, s', s'', hfirst, hsecond, refresh_twice_reflects hunlimited honest.steady hs hfirst hsecond⟩

/-- Synchronising once is not enough for that. -/
example : (((withExchange cluttered).refresh "c").2.cache.recordsOf "c").map Record.id = ["a", "b", "z"] := by
  decide +kernel

end DialogueSync.Client.Stores
