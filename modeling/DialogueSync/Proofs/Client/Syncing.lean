import DialogueSync.Proofs.Client.Wholeness

/-!
# What synchronising does to the stores

Synchronising consists of questions to the remote store and of calls on the cache, all of them about the
conversation (`SyncSteps`). What is written to the cache are records of the conversation, for messages that the
remote store has supplied in the course of it (`syncSteps_refresh`), and so are the messages of the tree that comes
of it (`supplied_of_refresh`).
-/

namespace DialogueSync.Client.Stores

open Cache (Record)

variable {ρ κ : Type} {conversation id : String} {batch batch' : List Record → Prop}

/-! ### What the remote store supplies -/

section Supplied

variable {s s' t t' : Stores ρ κ} {records : List Record}

/-- The remote store was asked about the conversation between two states, and has supplied the id. -/
def Supplied (conversation : String) (s s' : Stores ρ κ) (id : String) : Prop :=
  ∃ call, Noted s s' call ∧ call.asked? = some conversation ∧ id ∈ call.suppliedIds

/-- What is supplied on a stretch of the way is supplied on the whole way. -/
lemma Supplied.mono (h : Supplied conversation t t' id) (hs : s.calls <+: t.calls)
    (hs' : t'.calls <+: s'.calls) : Supplied conversation s s' id := by
  obtain ⟨call, hnoted, hcall⟩ := h
  exact ⟨call, hnoted.mono hs hs', hcall⟩

/-- The records are of the conversation, for messages that the remote store has supplied. -/
def OfSupplied (conversation : String) (s s' : Stores ρ κ) (records : List Record) : Prop :=
  ∀ r ∈ records, r.conversation = conversation ∧ Supplied conversation s s' r.id

lemma OfSupplied.mono (h : OfSupplied conversation t t' records) (hs : s.calls <+: t.calls)
    (hs' : t'.calls <+: s'.calls) : OfSupplied conversation s s' records :=
  fun r hr => (h r hr).imp_right fun hid => hid.mono hs hs'

end Supplied

/-! ### Questions and calls on the cache -/

variable [Remote ρ] [Cache κ] {s s' s'' : Stores ρ κ}

/-- One state comes from another by asking the remote store about a conversation, and by calls on the cache in
which only batches of a certain kind are written. -/
inductive SyncSteps (conversation : String) (batch : List Record → Prop) (s : Stores ρ κ) :
    Stores ρ κ → Prop where
  /-- Nothing is done. -/
  | refl : SyncSteps conversation batch s s
  /-- The outline is asked for. -/
  | askOutline {s' : Stores ρ κ} (h : SyncSteps conversation batch s s') :
      SyncSteps conversation batch s (s'.askOutline conversation).2
  /-- Bodies are asked for. -/
  | askBodies {s' : Stores ρ κ} (h : SyncSteps conversation batch s s') (ids : List String) :
      SyncSteps conversation batch s (s'.askBodies conversation ids).2
  /-- The whole conversation is asked for. -/
  | askSnapshot {s' : Stores ρ κ} (h : SyncSteps conversation batch s s') :
      SyncSteps conversation batch s (s'.askSnapshot conversation).2
  /-- Calls on the cache are made. -/
  | cache {s' s'' : Stores ρ κ} (h : SyncSteps conversation batch s s')
      (hcache : CacheSteps conversation batch s' s'') : SyncSteps conversation batch s s''

namespace SyncSteps

lemma trans (h : SyncSteps conversation batch s s') (h' : SyncSteps conversation batch s' s'') :
    SyncSteps conversation batch s s'' := by
  induction h' with
  | refl => exact h
  | askOutline _ ih => exact ih.askOutline
  | askBodies _ ids ih => exact ih.askBodies ids
  | askSnapshot _ ih => exact ih.askSnapshot
  | cache _ hcache ih => exact ih.cache hcache

/-- Fetching bodies is a question, or nothing. -/
lemma fetch (h : SyncSteps conversation batch s s') (o : Outline) (ids : List String) :
    SyncSteps conversation batch s (s'.fetch conversation o ids).2 := by
  have hask := h.askBodies ids
  unfold Stores.fetch
  split
  · exact h
  · split
    next heq =>
      rw [heq] at hask
      exact hask
    next heq =>
      rw [heq] at hask
      dsimp only
      split
      · exact hask
      · exact hask

/-- Steps that write batches of one kind write batches of a wider one. -/
lemma mono (himp : ∀ records, batch records → batch' records) (h : SyncSteps conversation batch s s') :
    SyncSteps conversation batch' s s' := by
  induction h with
  | refl => exact refl
  | askOutline _ ih => exact ih.askOutline
  | askBodies _ ids ih => exact ih.askBodies ids
  | askSnapshot _ ih => exact ih.askSnapshot
  | cache _ hcache ih => exact ih.cache (hcache.mono himp)

/-- Calls are only added. -/
lemma calls_isPrefix (h : SyncSteps conversation batch s s') : s.calls <+: s'.calls := by
  induction h with
  | refl => exact List.prefix_rfl
  | askOutline _ ih => exact ih.trans (List.prefix_append _ _)
  | askBodies _ ids ih => exact ih.trans (List.prefix_append _ _)
  | askSnapshot _ ih => exact ih.trans (List.prefix_append _ _)
  | cache _ hcache ih => exact ih.trans hcache.calls_isPrefix

/-- What the remote store keeps whenever it is asked about the conversation is kept throughout. -/
lemma remote_holds (holds : ρ → Prop) (houtline : ∀ a, holds a → holds (Remote.outline conversation a).2)
    (hbodies : ∀ a ids, holds a → holds (Remote.bodies conversation ids a).2)
    (hsnapshot : ∀ a, holds a → holds (Remote.snapshot conversation a).2)
    (h : SyncSteps conversation batch s s') (hs : holds s.remote) : holds s'.remote := by
  induction h with
  | refl => exact hs
  | askOutline _ ih => exact houtline _ ih
  | askBodies _ ids ih => exact hbodies _ ids ih
  | askSnapshot _ ih => exact hsnapshot _ ih
  | cache _ hcache ih => exact hcache.remote_eq.symm ▸ ih

/-- Steps that write good records keep what a cache keeps then. -/
lemma keeping {keeping : κ → Prop} {good : Record → Prop} (keeps : Keeps keeping conversation good)
    (h : SyncSteps conversation (fun records => ∀ r ∈ records, good r) s s') (hs : keeping s.cache) :
    keeping s'.cache := by
  induction h with
  | refl => exact hs
  | askOutline _ ih => exact ih
  | askBodies _ _ ih => exact ih
  | askSnapshot _ ih => exact ih
  | cache _ hcache ih => exact keeps.of_cacheSteps hcache ih

end SyncSteps

/-! ### Passes -/

namespace Pass

variable (p : Pass s s' conversation)

/-- Up to where stock is taken nothing is written. -/
lemma syncSteps_stocked (batch : List Record → Prop) : SyncSteps conversation batch s p.stocked := by
  have hask : SyncSteps conversation batch s (s.askOutline conversation).2 := SyncSteps.refl.askOutline
  rw [p.askOutline_eq] at hask
  exact (hask.cache (p.cacheSteps_asked _)).cache (p.cacheSteps_stocked _)

/-- The outline supplies all of its ids. -/
lemma supplied_of_mem_nodes (h : id ∈ p.outline.nodes) : Supplied conversation s s' id :=
  ⟨_, p.noted_outline, rfl, Std.ExtTreeMap.mem_keys.mpr h⟩

include p in
/-- A pass writes records of what was supplied. -/
lemma syncSteps : SyncSteps conversation (OfSupplied conversation s s') s s' := by
  have hwritten : ∀ r, r ∈ p.batch ∨ r ∈ p.assembly.lost →
      r.conversation = conversation ∧ Supplied conversation s s' r.id :=
    fun r hr => (p.of_mem_batch_or_lost hr).imp_right p.supplied_of_mem_nodes
  have hsupplied := (p.syncSteps_stocked (OfSupplied conversation s s')).fetch p.outline p.wanted
  rw [wanted, p.fetch_eq] at hsupplied
  have hcached := hsupplied.cache (p.cacheSteps_cached _ fun r hr => hwritten r (Or.inl hr))
  exact (hcached.cache (p.cacheSteps_checked _)).cache (p.cacheSteps_end _ fun r hr => hwritten r (Or.inr hr))

end Pass

/-- A pass that fails has written nothing. -/
lemma syncSteps_of_refreshChanged_error {e : Failure} (h : s.refreshChanged conversation = (.error e, s')) :
    SyncSteps conversation batch s s' := by
  have hask : SyncSteps conversation batch s (s.askOutline conversation).2 := SyncSteps.refl.askOutline
  rcases refreshChanged_error_cases h with heq | ⟨o, asked, heq, hfetch⟩
  · rwa [heq] at hask
  · rw [heq] at hask
    have hfetched := (hask.cache (CacheSteps.of_takeStock _ asked o)).fetch o
      (wanted o (asked.takeStock conversation o).1.held)
    rwa [hfetch] at hfetched

/-! ### Full fetches -/

omit [Cache κ] in
/-- The messages of a snapshot were supplied with it. -/
lemma supplied_of_mem_treeOf {full : Snapshot} {asked : Stores ρ κ}
    (hask : s.askSnapshot conversation = (.ok full, asked)) (hlater : asked.calls <+: s'.calls)
    (hid : id ∈ (treeOf full).messages) : Supplied conversation s s' id := by
  have hnoted : Noted s asked (.snapshot conversation (.ok full)) :=
    ⟨_, (askSnapshot_frame hask).1, List.mem_singleton_self _⟩
  refine ⟨_, hnoted.mono List.prefix_rfl hlater, rfl, List.mem_append_right _ ?_⟩
  exact List.mem_map.mpr (mem_treeOf_iff.mp hid)

/-- A full fetch supplies all messages of the tree that comes of it. -/
lemma supplied_of_refreshWhole {tree : Tree} {report : Report}
    (h : s.refreshWhole conversation = (.ok (tree, report), s')) (hid : id ∈ tree.messages) :
    Supplied conversation s s' id := by
  obtain ⟨full, asked, hask, rfl, rfl⟩ := exists_snapshot_of_refreshWhole h
  have hsteps : CacheSteps conversation (fun _ => True) asked (asked.overwrite conversation
      ((treeOf full).messages.values.map (snapshotRecord conversation full asked.clock))).2 :=
    (CacheSteps.refl asked).overwrite trivial
  exact supplied_of_mem_treeOf hask hsteps.calls_isPrefix hid

/-- A full fetch writes records of what was supplied. -/
lemma syncSteps_of_refreshWhole {reply : Except Failure (Tree × Report)}
    (h : s.refreshWhole conversation = (reply, s')) :
    SyncSteps conversation (OfSupplied conversation s s') s s' := by
  have hask : ∀ batch, SyncSteps conversation batch s (s.askSnapshot conversation).2 :=
    fun _ => SyncSteps.refl.askSnapshot
  obtain ⟨e, -, hsnapshot⟩ | ⟨full, asked, hsnapshot, rfl, rfl⟩ := refreshWhole_cases h
  · rw [hsnapshot] at hask
    exact hask _
  · rw [hsnapshot] at hask
    refine (hask _).cache ((CacheSteps.refl asked).overwrite fun r hr => ?_)
    obtain ⟨m, hm, rfl⟩ := List.mem_map.mp hr
    obtain ⟨x, hx⟩ := mem_values_iff.mp hm
    have hkeyed : IdMap.Keyed Message.id (treeOf full).messages :=
      (Tree.wellFormed_ofMessages _ _).toLinked.keyed
    obtain rfl : m.id = x := hkeyed x m hx
    exact ⟨rfl, supplied_of_refreshWhole h (mem_iff_exists_getElem?.mpr ⟨m, hx⟩)⟩

/-! ### Synchronising -/

/-- Whatever comes of it, synchronising consists of such steps, and writes records of what was supplied. -/
theorem syncSteps_refresh (s : Stores ρ κ) (conversation : String) :
    SyncSteps conversation (OfSupplied conversation s (s.refresh conversation).2) s
      (s.refresh conversation).2 := by
  rcases refresh_cases (Prod.eta (s.refresh conversation)).symm with
    ⟨-, p, -⟩ | ⟨-, e, failed, hpass, hwhole⟩ | ⟨-, hwhole⟩
  · exact p.syncSteps
  · have hfailed : SyncSteps conversation (OfSupplied conversation s (s.refresh conversation).2) s failed :=
      syncSteps_of_refreshChanged_error hpass
    refine hfailed.trans ((syncSteps_of_refreshWhole hwhole).mono fun records hrecords => ?_)
    exact hrecords.mono hfailed.calls_isPrefix List.prefix_rfl
  · exact syncSteps_of_refreshWhole hwhole

/-- What is in the tree that comes of synchronising was supplied in the course of it. -/
theorem supplied_of_refresh {tree : Tree} {report : Report}
    (h : s.refresh conversation = (.ok (tree, report), s')) (hid : id ∈ tree.messages) :
    Supplied conversation s s' id := by
  rcases refresh_cases h with ⟨-, p, hreply⟩ | ⟨-, e, failed, hpass, hwhole⟩ | ⟨-, hwhole⟩
  · obtain ⟨rfl, -⟩ := Prod.mk.inj (Except.ok.inj hreply)
    rw [p.tree_eq, Tree.mem_ofIdMap_iff, p.mem_bodies_iff] at hid
    exact p.supplied_of_mem_nodes hid
  · have hfailed : SyncSteps conversation (fun _ => True) s failed := syncSteps_of_refreshChanged_error hpass
    exact (supplied_of_refreshWhole hwhole hid).mono hfailed.calls_isPrefix List.prefix_rfl
  · exact supplied_of_refreshWhole hwhole hid

end DialogueSync.Client.Stores
