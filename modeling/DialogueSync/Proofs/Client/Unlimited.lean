import DialogueSync.Proofs.Client.Failure
import DialogueSync.Proofs.Client.Retention
import DialogueSync.Proofs.Client.Soundness

/-!
# A cache without a limit

A cache in memory that has no limit refuses nothing, so that it is never cleared and never given up. Every batch
is then simply added, and synchronising a conversation has one of three outcomes for the cache (`Synced`).

No operation touches the records of a conversation that is neither open nor loaded, unless the cache is cleared
at the user's wish (`OnlyIn.of_move`).
-/

namespace DialogueSync.Client

open Cache (Memory Record)

variable {ρ : Type} {conversation : String}

namespace Stores

/-- The cache is in use and without a limit, and has every record under its own key. -/
structure Unlimited (s : Stores ρ Memory) : Prop where
  /-- The cache is in use. -/
  degraded_eq : s.degraded = false
  /-- Every record is stored under its own key. -/
  keyed : s.cache.Keyed
  /-- There may be any number of records. -/
  quota_eq : s.cache.quota = none

/-- What is written to the cache does not touch the remote store. -/
lemma remote_store {κ : Type} [Cache κ] (s : Stores ρ κ) (batch : List Record) :
    (s.store batch).2.remote = s.remote := by
  have hsteps : CacheSteps "" (fun _ => True) s (s.store batch).2 := (CacheSteps.refl s).store trivial
  exact hsteps.remote_eq

lemma remote_overwrite {κ : Type} [Cache κ] (s : Stores ρ κ) (conversation : String)
    (batch : List Record) : (s.overwrite conversation batch).2.remote = s.remote := by
  have hsteps : CacheSteps conversation (fun _ => True) s (s.overwrite conversation batch).2 :=
    (CacheSteps.refl s).overwrite trivial
  exact hsteps.remote_eq

namespace Unlimited

variable {s s' : Stores ρ Memory} (h : s.Unlimited)
include h

/-- Any number of records is within the limit. -/
lemma fits {k : Memory} (hk : k.quota = s.cache.quota) : k.Fits := by
  intro limit hlimit
  rw [hk, h.quota_eq] at hlimit
  cases hlimit

/-- A batch is added to what is there. -/
lemma cache_store (batch : List Record) :
    (s.store batch).2.cache = s.cache.written batch ∧ (s.store batch).2.degraded = false := by
  rcases store_cases h.degraded_eq (h.fits rfl) batch with ⟨-, hcache, hdegraded⟩ | ⟨hnot, -⟩
  · exact ⟨hcache, hdegraded⟩
  · exact absurd (h.fits (k := s.cache.written batch) rfl) hnot

/-- A cache without a limit takes every batch and stays so. -/
lemma store (batch : List Record) : (s.store batch).2.Unlimited := by
  obtain ⟨hcache, hdegraded⟩ := h.cache_store batch
  refine ⟨hdegraded, ?_, ?_⟩
  · rw [hcache]
    exact h.keyed.written batch
  · rw [hcache]
    exact h.quota_eq

lemma callDrop (conversation : String) : (s.callDrop conversation).2.Unlimited :=
  ⟨h.degraded_eq, h.keyed.drop conversation, h.quota_eq⟩

/-- The records of a conversation are dropped, and the batch is added to the others. -/
lemma overwrite_eq (conversation : String) (batch : List Record) :
    s.overwrite conversation batch = (s.callDrop conversation).2.store batch := by
  have hdiscard : s.discard conversation = (true, (s.callDrop conversation).2) := by
    rw [discard, if_neg (by simp [h.degraded_eq])]
    rfl
  rw [overwrite, hdiscard]

/-- The batch takes the place of the records of the conversation. -/
lemma cache_overwrite (conversation : String) (batch : List Record) :
    (s.overwrite conversation batch).2.cache = (s.cache.drop conversation).written batch := by
  rw [h.overwrite_eq]
  exact ((h.callDrop conversation).cache_store batch).1

lemma overwrite (conversation : String) (batch : List Record) :
    (s.overwrite conversation batch).2.Unlimited := by
  rw [h.overwrite_eq]
  exact (h.callDrop conversation).store batch

/-- What matters is the cache and whether it is in use. -/
lemma congr (hcache : s'.cache = s.cache) (hdegraded : s'.degraded = s.degraded) : s'.Unlimited :=
  ⟨hdegraded.trans h.degraded_eq, hcache ▸ h.keyed, hcache ▸ h.quota_eq⟩

end Unlimited

/-! ### Synchronising -/

variable [Remote ρ] {s s' : Stores ρ Memory}

/-- Fetching bodies leaves the cache alone. -/
lemma fetch_frame {κ : Type} (s : Stores ρ κ) (conversation : String) (o : Outline) (ids : List String) :
    (s.fetch conversation o ids).2.cache = s.cache ∧
      (s.fetch conversation o ids).2.degraded = s.degraded := by
  have hask : (s.askBodies conversation ids).2.cache = s.cache ∧
      (s.askBodies conversation ids).2.degraded = s.degraded := ⟨rfl, rfl⟩
  unfold fetch
  split
  · exact ⟨rfl, rfl⟩
  · split
    next heq =>
      rw [heq] at hask
      exact hask
    next heq =>
      rw [heq] at hask
      dsimp only
      split
      · exact hask
      · exact hask

/-- What comes of synchronising a conversation, and what it leaves in a cache without a limit. -/
inductive Synced (conversation : String) (s s' : Stores ρ Memory) :
    Except Failure (Tree × Report) → Prop where
  /-- A differential pass adds the fetched bodies to what was held when stock was taken. -/
  | pass (p : Pass s s' conversation) (hcache : s'.cache = p.supplied.cache.written p.batch) :
      Synced conversation s s' (.ok (p.tree, p.report))
  /-- A full fetch puts the messages of the tree in the place of what was there. -/
  | whole (full : Snapshot) (now : Int64) (report : Report) (hmode : report.mode = .full)
      (hcache : s'.cache = (s.cache.drop conversation).written
        ((treeOf full).messages.values.map (snapshotRecord conversation full now))) :
      Synced conversation s s' (.ok (treeOf full, report))
  /-- If it fails, at most the records of the conversation are dropped. -/
  | fail (e : Failure) (hcache : s'.cache = s.cache ∨ s'.cache = s.cache.drop conversation) :
      Synced conversation s s' (.error e)

namespace Unlimited

/-- A differential pass that succeeds. -/
lemma synced_of_pass (h : s.Unlimited) (p : Pass s s' conversation) :
    s'.Unlimited ∧ Synced conversation s s' (.ok (p.tree, p.report)) := by
  have hfirst : (p.supplied.cache.written p.batch).Fits := h.fits (p.quota_supplied h.degraded_eq)
  obtain ⟨hcache, hdegraded⟩ := p.end_of_fits h.degraded_eq h.keyed (h.fits rfl) hfirst
  refine ⟨⟨hdegraded, ?_, ?_⟩, .pass p hcache⟩
  · rw [hcache]
    exact (p.keyed_supplied h.keyed).written p.batch
  · rw [hcache]
    exact (p.quota_supplied h.degraded_eq).trans h.quota_eq

/-- A differential pass that fails. -/
lemma of_refreshChanged_error (h : s.Unlimited) {e : Failure}
    (hpass : s.refreshChanged conversation = (.error e, s')) :
    s'.Unlimited ∧ (s'.cache = s.cache ∨ s'.cache = s.cache.drop conversation) := by
  rcases refreshChanged_error_cases hpass with hask | ⟨o, asked, hask, hfetch⟩
  · obtain ⟨-, hcache, hdegraded⟩ := askOutline_frame hask
    exact ⟨h.congr hcache hdegraded, Or.inl hcache⟩
  · obtain ⟨-, hcache, hdegraded⟩ := askOutline_frame hask
    have hunlimited : asked.Unlimited := h.congr hcache hdegraded
    obtain ⟨-, hstocked, hcases⟩ := takeStock_cases hunlimited.degraded_eq conversation o
    have hframe := (asked.takeStock conversation o).2.fetch_frame conversation o
      (wanted o (asked.takeStock conversation o).1.held)
    rw [hfetch] at hframe
    obtain ⟨hcache', hdegraded'⟩ := hframe
    rw [hcache']
    rcases hcases with ⟨-, -, hdropped⟩ | ⟨-, -, hkept⟩
    · refine ⟨(hunlimited.callDrop conversation).congr (hcache'.trans hdropped) ?_,
        Or.inr (by rw [hdropped, hcache])⟩
      rw [hdegraded', hstocked]
      exact hunlimited.degraded_eq.symm
    · refine ⟨hunlimited.congr (hcache'.trans hkept) ?_, Or.inl (by rw [hkept, hcache])⟩
      rw [hdegraded', hstocked]
      exact hunlimited.degraded_eq.symm

/-- A full fetch, at once or after a differential pass that has failed. -/
lemma synced_of_whole {asked : Stores ρ Memory} (h : asked.Unlimited)
    (hcache : asked.cache = s.cache ∨ asked.cache = s.cache.drop conversation)
    {reply : Except Failure (Tree × Report)}
    (hwhole : asked.refreshWhole conversation = (reply, s')) :
    s'.Unlimited ∧ Synced conversation s s' reply := by
  obtain ⟨e, rfl, hask⟩ | ⟨full, answered, hask, rfl, rfl⟩ := refreshWhole_cases hwhole
  · obtain ⟨-, heq, hdegraded⟩ := askSnapshot_frame hask
    rw [← heq] at hcache
    exact ⟨h.congr heq hdegraded, .fail e hcache⟩
  · obtain ⟨-, heq, hdegraded⟩ := askSnapshot_frame hask
    have hunlimited : answered.Unlimited := h.congr heq hdegraded
    have hdrop : answered.cache.drop conversation = s.cache.drop conversation := by
      rcases hcache with hkept | hdropped
      · rw [heq, hkept]
      · rw [heq, hdropped, Memory.drop_drop]
    refine ⟨hunlimited.overwrite _ _, .whole full answered.clock _ rfl ?_⟩
    rw [← hdrop]
    exact hunlimited.cache_overwrite _ _

/-- Synchronising leaves the cache in use and without a limit. -/
theorem synced (h : s.Unlimited) {reply : Except Failure (Tree × Report)}
    (hrefresh : s.refresh conversation = (reply, s')) :
    s'.Unlimited ∧ Synced conversation s s' reply := by
  obtain ⟨-, p, rfl⟩ | ⟨-, e, failed, hpass, hwhole⟩ | ⟨hdegraded, -⟩ := refresh_cases hrefresh
  · exact h.synced_of_pass p
  · obtain ⟨hfailed, hcache⟩ := h.of_refreshChanged_error hpass
    exact hfailed.synced_of_whole hcache hwhole
  · cases h.degraded_eq.symm.trans hdegraded

end Unlimited

/-! ### The records of other conversations -/

/-- The cache stays in use and without a limit, and only records of one conversation change. -/
structure OnlyIn (conversation : String) (s s' : Stores ρ Memory) : Prop where
  /-- The cache stays as it should be. -/
  unlimited : s'.Unlimited
  /-- Every other conversation keeps its records. -/
  recordsOf_eq : ∀ other, other ≠ conversation → s'.cache.recordsOf other = s.cache.recordsOf other

omit [Remote ρ] in
/-- Adding records of a conversation leaves those of the others as they are. -/
lemma recordsOf_added {k : Memory} {batch : List Record}
    (hbatch : ∀ r ∈ batch, r.conversation = conversation) {other : String} (hne : other ≠ conversation)
    (hk : k.recordsOf other = s.cache.recordsOf other) :
    (k.written batch).recordsOf other = s.cache.recordsOf other := by
  rw [Memory.recordsOf_written_of_ne k fun r hr heq => hne (heq.symm.trans (hbatch r hr)), hk]

/-- Synchronising changes the records of its own conversation only. -/
lemma Synced.recordsOf_eq {reply : Except Failure (Tree × Report)} (hs : s.degraded = false)
    (h : Synced conversation s s' reply) {other : String} (hne : other ≠ conversation) :
    s'.cache.recordsOf other = s.cache.recordsOf other := by
  have hdrop := Memory.recordsOf_drop_of_ne s.cache hne
  cases h with
  | pass p hcache =>
    rw [hcache]
    refine recordsOf_added (fun r hr => p.renews_batch.conversation_eq r hr) hne ?_
    obtain ⟨-, -, ⟨-, -, hsupplied⟩ | ⟨-, -, hsupplied⟩⟩ := p.supplied_cases hs
    · rw [hsupplied, hdrop]
    · rw [hsupplied]
  | whole full now report hmode hcache =>
    rw [hcache]
    refine recordsOf_added (fun r hr => ?_) hne hdrop
    obtain ⟨m, -, rfl⟩ := List.mem_map.mp hr
    rfl
  | fail e hcache =>
    rcases hcache with hcache | hcache
    · rw [hcache]
    · rw [hcache, hdrop]

namespace Unlimited

/-- Synchronising changes the records of its own conversation only. -/
lemma onlyIn_refresh (h : s.Unlimited) {reply : Except Failure (Tree × Report)}
    (hrefresh : s.refresh conversation = (reply, s')) : OnlyIn conversation s s' := by
  obtain ⟨hunlimited, hsynced⟩ := h.synced hrefresh
  exact ⟨hunlimited, fun other hne => hsynced.recordsOf_eq h.degraded_eq hne⟩

omit [Remote ρ] in
/-- Adding records of a conversation changes its records only. -/
lemma onlyIn_store (h : s.Unlimited) {batch : List Record}
    (hbatch : ∀ r ∈ batch, r.conversation = conversation) :
    OnlyIn conversation s (s.store batch).2 := by
  refine ⟨h.store batch, fun other hne => ?_⟩
  rw [(h.cache_store batch).1]
  exact recordsOf_added hbatch hne rfl

omit [Remote ρ] in
/-- Putting records of a conversation in the place of others changes its records only. -/
lemma onlyIn_overwrite (h : s.Unlimited) {batch : List Record}
    (hbatch : ∀ r ∈ batch, r.conversation = conversation) :
    OnlyIn conversation s (s.overwrite conversation batch).2 := by
  refine ⟨h.overwrite conversation batch, fun other hne => ?_⟩
  rw [h.cache_overwrite conversation batch]
  exact recordsOf_added hbatch hne (Memory.recordsOf_drop_of_ne s.cache hne)

end Unlimited

end Stores

/-! ### Sessions -/

namespace Session

open Stores (OnlyIn)

variable [Remote ρ] {s s' : Session ρ Memory} {op : Operation}

/-- A step changes the records of the open conversation only, unless the cache is cleared. -/
lemma Step.onlyIn (h : Step conversation s op s') (hs : s.stores.Unlimited) (hop : op ≠ .recoverCache) :
    OnlyIn conversation s.stores s'.stores := by
  have hsame : OnlyIn conversation s.stores s.stores := ⟨hs, fun _ _ => rfl⟩
  have hsave : ∀ {t : Stores ρ Memory} {request : SaveRequest}, OnlyIn conversation s.stores t →
      OnlyIn conversation s.stores (t.save conversation request).2 := by
    intro t request ht
    exact ⟨ht.unlimited.congr rfl rfl, ht.recordsOf_eq⟩
  have hconcluded : ∀ {s₀ : Session ρ Memory} {m : Message}, s₀.stores = s.stores →
      OnlyIn conversation s.stores (s₀.concluded conversation m).stores := by
    intro s₀ m heq
    rw [stores_concluded, heq]
    refine hsave (hs.onlyIn_store fun r hr => ?_)
    rw [List.mem_singleton.mp hr]
    rfl
  cases h with
  | recoverCache => exact absurd rfl hop
  | attach hinsert =>
    refine hs.onlyIn_store fun r hr => ?_
    obtain ⟨x, m, -, rfl⟩ := exists_of_mem_attachedRecords hr
    rfl
  | last => exact hconcluded rfl
  | conclude => exact hconcluded rfl
  | delete =>
    rw [stores_save]
    refine hsave (hs.onlyIn_overwrite fun r hr => ?_)
    obtain ⟨m, -, rfl⟩ := List.mem_map.mp hr
    rfl
  | reload hrefresh => exact hs.onlyIn_refresh hrefresh
  | fail hrefresh => exact hs.onlyIn_refresh hrefresh
  | _ => exact hsame

/-- The operation is done while another conversation is open, or opens another one, and does not clear the
cache. -/
def AwayFrom (conversation : String) (s : Session ρ Memory) : Operation → Prop
  | .startNew other | .load other => other ≠ conversation
  | .recoverCache => False
  | .attach .. | .select _ | .noteRequest .. | .receive .. | .finish _ | .stop _ | .delete _ =>
    s.conversation ≠ some conversation

omit [Remote ρ] in
/-- Opening a conversation from a cache in use reads its records once. -/
lemma stores_openOffline (hs : s.stores.degraded = false) (conversation : String) :
    (s.openOffline conversation).stores = (s.stores.callRead conversation).2 := by
  change (s.stores.cachedRecords conversation).2 = _
  rw [Stores.cachedRecords_eq hs]

omit [Remote ρ] in
/-- The conversation is shown offline as its cached messages form a tree. -/
lemma tree_openOffline (hs : s.stores.degraded = false) (conversation : String) :
    (s.openOffline conversation).tree =
      Tree.ofMessages ((s.stores.cache.recordsOf conversation).map Record.message) none := by
  change Tree.ofMessages (((s.stores.cachedRecords conversation).1.getD []).map Record.message) none = _
  rw [Stores.cachedRecords_eq hs]
  rfl

/-- Whatever is done away from a conversation leaves its records as they are. -/
lemma Move.recordsOf_eq (h : Move s op s') (hs : s.stores.Unlimited)
    (haway : AwayFrom conversation s op) :
    s'.stores.Unlimited ∧
      s'.stores.cache.recordsOf conversation = s.stores.cache.recordsOf conversation := by
  have hother : ∀ {other : String} {stores : Stores ρ Memory}, other ≠ conversation →
      OnlyIn other s.stores stores → stores.Unlimited ∧
        stores.cache.recordsOf conversation = s.stores.cache.recordsOf conversation :=
    fun hne honly => ⟨honly.unlimited, honly.recordsOf_eq conversation hne.symm⟩
  cases h with
  | @remain current op s' hopen hremains hstep =>
    have hne : current ≠ conversation := by
      rintro rfl
      cases op with
      | load other => exact haway hremains
      | startNew => exact hremains
      | recoverCache => exact haway
      | _ => exact haway hopen
    refine hother hne (hstep.onlyIn hs fun hop => ?_)
    rw [hop] at haway
    exact haway
  | recoverCache => exact haway.elim
  | switch _ hrefresh => exact hother haway (hs.onlyIn_refresh hrefresh)
  | switchOffline _ hrefresh =>
    obtain ⟨hunlimited, hrecords⟩ := hother haway (hs.onlyIn_refresh hrefresh)
    rw [stores_openOffline hunlimited.degraded_eq]
    exact ⟨hunlimited.congr rfl rfl, hrecords⟩
  | _ => exact ⟨hs, rfl⟩

/-- A run away from a conversation leaves its records as they are. -/
theorem Along.recordsOf_eq {events : List Event} (h : Along (AwayFrom conversation) s events)
    (hsound : Sound s) (hs : s.stores.Unlimited) :
    (s.runTimed events).stores.Unlimited ∧
      (s.runTimed events).stores.cache.recordsOf conversation =
        s.stores.cache.recordsOf conversation := by
  let inv : Session ρ Memory → Prop := fun s' => Sound s' ∧ s'.stores.Unlimited ∧
    s'.stores.cache.recordsOf conversation = s.stores.cache.recordsOf conversation
  suffices hinv : inv (s.runTimed events) from hinv.2
  refine h.preserves ?_ ?_ ⟨hsound, hs, rfl⟩
  · rintro s' now ⟨hsound', hunlimited, hrecords⟩
    exact ⟨hsound'.atTime now, hunlimited.congr rfl rfl, hrecords⟩
  · rintro s' op ⟨hsound', hunlimited, hrecords⟩ haway
    obtain ⟨hunlimited', hrecords'⟩ := (hsound'.move_after op).recordsOf_eq hunlimited haway
    exact ⟨hsound'.after op, hunlimited', hrecords'.trans hrecords⟩

end Session

end DialogueSync.Client
