import DialogueSync.Client.Sync
import Mathlib.Tactic.Lemma

/-!
# What a client does to its cache

Whatever a client does to its cache about one conversation is a sequence of single calls, `CacheSteps`:
reading and dropping the records of the conversation, writing batches, clearing, and giving the cache up.
So what every call leaves alone stays as it is (`CacheSteps.remote_eq`, `CacheSteps.exists_calls`), and a
property of caches that every call keeps is kept throughout (`Keeps.of_cacheSteps`).
-/

namespace DialogueSync.Client

open Cache (Record)

/-- The call was made on the cache, and what it writes is a batch of a certain kind. -/
def Call.OnCache (batch : List Record → Prop) : Call → Prop
  | .put records _ => batch records
  | .read .. | .drop .. | .clear .. => True
  | .outline .. | .bodies .. | .snapshot .. | .save .. => False

/-- Whether a call asks the remote store for bodies. -/
def Call.isFetch : Call → Bool
  | .bodies .. | .snapshot .. => true
  | .outline .. | .save .. | .read .. | .put .. | .drop .. | .clear .. => false

/-- The ids of the messages that the reply to a call supplies. -/
def Call.suppliedIds : Call → List String
  | .outline _ (.ok o) => o.nodes.keys
  | .bodies _ _ (.ok ms) => ms.map Message.id
  | .snapshot _ (.ok full) => full.outline.nodes.keys ++ full.bodies.map Message.id
  | .read _ (.ok records) => records.map Record.id
  | .outline .. | .bodies .. | .snapshot .. | .save .. | .read .. | .put .. | .drop .. | .clear .. => []

/-- The conversation about which the remote store is asked. -/
def Call.asked? : Call → Option String
  | .outline conversation _ | .bodies conversation .. | .snapshot conversation _ => some conversation
  | .save .. | .read .. | .put .. | .drop .. | .clear .. => none

/-- Calls on the cache fetch nothing. -/
lemma Call.OnCache.isFetch_eq_false {batch : List Record → Prop} {call : Call} (h : call.OnCache batch) :
    call.isFetch = false := by
  cases call <;> first | rfl | exact h.elim

namespace Stores

variable {ρ κ : Type} [Cache κ]

/-- One state comes from another by calls on the cache about a conversation, in which only batches of a
certain kind are written. -/
inductive CacheSteps (conversation : String) (batch : List Record → Prop) :
    Stores ρ κ → Stores ρ κ → Prop where
  /-- Nothing is done. -/
  | refl (s : Stores ρ κ) : CacheSteps conversation batch s s
  /-- The records of the conversation are read. -/
  | read {s s' : Stores ρ κ} (h : CacheSteps conversation batch s s') :
      CacheSteps conversation batch s (s'.callRead conversation).2
  /-- A batch is written. -/
  | put {s s' : Stores ρ κ} {records : List Record} (h : CacheSteps conversation batch s s')
      (hbatch : batch records) : CacheSteps conversation batch s (s'.callPut records).2
  /-- The records of the conversation are dropped. -/
  | drop {s s' : Stores ρ κ} (h : CacheSteps conversation batch s s') :
      CacheSteps conversation batch s (s'.callDrop conversation).2
  /-- All records are dropped. -/
  | clear {s s' : Stores ρ κ} (h : CacheSteps conversation batch s s') :
      CacheSteps conversation batch s s'.callClear.2
  /-- The cache is given up. -/
  | giveUp {s s' : Stores ρ κ} (h : CacheSteps conversation batch s s') :
      CacheSteps conversation batch s s'.giveUp

namespace CacheSteps

variable {conversation : String} {batch : List Record → Prop} {s s' s'' : Stores ρ κ}

/-! ### Where the steps occur -/

lemma trans (h : CacheSteps conversation batch s s') (h' : CacheSteps conversation batch s' s'') :
    CacheSteps conversation batch s s'' := by
  induction h' with
  | refl => exact h
  | read _ ih => exact ih.read
  | put _ hbatch ih => exact ih.put hbatch
  | drop _ ih => exact ih.drop
  | clear _ ih => exact ih.clear
  | giveUp _ ih => exact ih.giveUp

/-- Reading the records is such a step, also where it gives up the cache or does nothing. -/
lemma cachedRecords (h : CacheSteps conversation batch s s') :
    CacheSteps conversation batch s (s'.cachedRecords conversation).2 := by
  unfold Stores.cachedRecords
  split
  · exact h
  · exact h.read

lemma discard (h : CacheSteps conversation batch s s') :
    CacheSteps conversation batch s (s'.discard conversation).2 := by
  have hdrop := h.drop
  unfold Stores.discard
  split
  · exact h
  · split <;> simp_all

/-- Clearing the cache and writing again are such steps if the batch is of the kind. -/
lemma clearAndRetry (h : CacheSteps conversation batch s s') {records : List Record}
    (hbatch : batch records) : CacheSteps conversation batch s (s'.clearAndRetry records).2 := by
  have hclear := h.clear
  have hput := hclear.put hbatch
  unfold Stores.clearAndRetry
  split
  next t heq =>
    rw [heq] at hclear
    exact hclear.giveUp
  next t heq =>
    rw [heq] at hput
    split
    next t' heq' =>
      rw [heq'] at hput
      exact hput
    next t' heq' =>
      rw [heq'] at hput
      exact hput.giveUp

lemma store (h : CacheSteps conversation batch s s') {records : List Record}
    (hbatch : batch records) : CacheSteps conversation batch s (s'.store records).2 := by
  have hput := h.put hbatch
  unfold Stores.store
  split
  · exact h
  split
  · exact h
  split
  next t heq =>
    rw [heq] at hput
    exact hput
  next e t heq =>
    rw [heq] at hput
    split
    · exact hput.clearAndRetry hbatch
    · exact hput

lemma storeIf (h : CacheSteps conversation batch s s') (writable : Bool) {records : List Record}
    (hbatch : batch records) : CacheSteps conversation batch s (s'.storeIf writable records) := by
  unfold Stores.storeIf
  split
  · exact h.store hbatch
  · exact h

lemma overwrite (h : CacheSteps conversation batch s s') {records : List Record}
    (hbatch : batch records) : CacheSteps conversation batch s (s'.overwrite conversation records).2 := by
  have hdrop := h.discard
  unfold Stores.overwrite
  split
  next t heq =>
    rw [heq] at hdrop
    exact hdrop.store hbatch
  next t heq =>
    rw [heq] at hdrop
    exact hdrop

/-- After reading the records, taking stock takes such steps. -/
lemma of_cachedRecords_takeStock (s : Stores ρ κ) (o : Outline) :
    CacheSteps conversation batch (s.cachedRecords conversation).2
      (s.takeStock conversation o).2 := by
  have hread : CacheSteps conversation batch _ (s.cachedRecords conversation).2 := refl _
  have hdrop := hread.discard
  unfold Stores.takeStock
  dsimp only
  split
  · split <;> simp_all
  · exact hread

/-- Taking stock takes such steps. -/
lemma of_takeStock (batch : List Record → Prop) (s : Stores ρ κ) (o : Outline) :
    CacheSteps conversation batch s (s.takeStock conversation o).2 :=
  (refl s).cachedRecords.trans (of_cachedRecords_takeStock s o)

/-- Steps that write batches of one kind write batches of a wider one. -/
lemma mono {batch' : List Record → Prop} (himp : ∀ records, batch records → batch' records)
    (h : CacheSteps conversation batch s s') : CacheSteps conversation batch' s s' := by
  induction h with
  | refl => exact refl s
  | read _ ih => exact ih.read
  | put _ hbatch ih => exact ih.put (himp _ hbatch)
  | drop _ ih => exact ih.drop
  | clear _ ih => exact ih.clear
  | giveUp _ ih => exact ih.giveUp

/-! ### What the steps leave alone -/

/-- The remote store is not touched. -/
lemma remote_eq (h : CacheSteps conversation batch s s') : s'.remote = s.remote := by
  induction h with
  | refl => rfl
  | read _ ih => exact ih
  | put _ _ ih => exact ih
  | drop _ ih => exact ih
  | clear _ ih => exact ih
  | giveUp _ ih => exact ih

/-- A cache that was given up is not taken up again. -/
lemma degraded (h : CacheSteps conversation batch s s') (hs : s.degraded) : s'.degraded := by
  induction h with
  | refl => exact hs
  | read _ ih => exact ih
  | put _ _ ih => exact ih
  | drop _ ih => exact ih
  | clear _ ih => exact ih
  | giveUp => rfl

/-- Only calls on the cache are noted, which write batches of that kind. -/
lemma exists_calls (h : CacheSteps conversation batch s s') :
    ∃ made, s'.calls = s.calls ++ made ∧ ∀ call ∈ made, call.OnCache batch := by
  -- One more call on the cache is noted at the end.
  have hmore : ∀ {t : Stores ρ κ} {call : Call}, call.OnCache batch →
      (∃ made, t.calls = s.calls ++ made ∧ ∀ call ∈ made, call.OnCache batch) →
      ∃ made, t.calls ++ [call] = s.calls ++ made ∧ ∀ call ∈ made, call.OnCache batch := by
    rintro t call hcall ⟨made, hmade, hcache⟩
    refine ⟨made ++ [call], by rw [hmade, List.append_assoc], fun call' hcall' => ?_⟩
    rcases List.mem_append.mp hcall' with hcall' | hcall'
    · exact hcache call' hcall'
    · rw [List.mem_singleton.mp hcall']
      exact hcall
  induction h with
  | refl => exact ⟨[], (List.append_nil _).symm, by simp⟩
  | read _ ih => exact hmore trivial ih
  | put _ hbatch ih => exact hmore hbatch ih
  | drop _ ih => exact hmore trivial ih
  | clear _ ih => exact hmore trivial ih
  | giveUp _ ih => exact ih

/-- The calls made so far stay at the front of the trace. -/
lemma calls_isPrefix (h : CacheSteps conversation batch s s') : s.calls <+: s'.calls := by
  obtain ⟨made, hmade, -⟩ := h.exists_calls
  exact ⟨made, hmade.symm⟩

end CacheSteps

/-! ### Where the cache is in use, and where it was given up -/

section Use

variable {s : Stores ρ κ}

/-- A reading call is traced, and touches nothing else. -/
lemma callRead_frame {s' : Stores ρ κ} {conversation : String} {reply : Except Failure (List Record)}
    (h : s.callRead conversation = (reply, s')) :
    s'.calls = s.calls ++ [.read conversation reply] ∧ s'.degraded = s.degraded := by
  obtain ⟨rfl, rfl⟩ := Prod.mk.inj h
  exact ⟨rfl, rfl⟩

lemma callDrop_frame {s' : Stores ρ κ} {conversation : String} {reply : Except Failure Unit}
    (h : s.callDrop conversation = (reply, s')) :
    s'.calls = s.calls ++ [.drop conversation reply] ∧ s'.degraded = s.degraded := by
  obtain ⟨rfl, rfl⟩ := Prod.mk.inj h
  exact ⟨rfl, rfl⟩

/-- With a cache in use reading comes down to a call. -/
lemma cachedRecords_of_callRead {s' : Stores ρ κ} {conversation : String} (hs : s.degraded = false)
    {reply : Except Failure (List Record)} (h : s.callRead conversation = (reply, s')) :
    s.cachedRecords conversation = (reply.toOption, s') := by
  rw [cachedRecords, if_neg (by simp [hs]), h]

/-- With a cache in use discarding comes down to dropping. -/
lemma snd_discard (hs : s.degraded = false) (conversation : String) :
    (s.discard conversation).2 = (s.callDrop conversation).2 := by
  rw [discard, if_neg (by simp [hs])]
  split <;> simp_all

/-- With a cache in use a batch is written first of all when it is stored, if there is anything to write. -/
lemma calls_callPut_isPrefix (hs : s.degraded = false) {records : List Record} (hrecords : records ≠ []) :
    (s.callPut records).2.calls <+: (s.store records).2.calls := by
  unfold store
  rw [if_neg (by simp [hs]), if_neg (by simpa using hrecords)]
  split
  next t heq =>
    have hput : (s.callPut records).2 = t := congrArg Prod.snd heq
    exact hput ▸ List.prefix_rfl
  next e t heq =>
    rw [heq]
    split
    · have hlater : CacheSteps "" (fun _ => True) t (t.clearAndRetry records).2 :=
        (CacheSteps.refl t).clearAndRetry trivial
      exact hlater.calls_isPrefix
    · exact List.prefix_rfl

/-- With a cache in use the records of the conversation are dropped first of all when others are put in their
place. -/
lemma calls_callDrop_isPrefix (hs : s.degraded = false) (conversation : String) (records : List Record) :
    (s.callDrop conversation).2.calls <+: (s.overwrite conversation records).2.calls := by
  have hdiscard := snd_discard hs conversation
  unfold overwrite
  split
  next t heq =>
    rw [heq] at hdiscard
    have hlater : CacheSteps conversation (fun _ => True) t (t.store records).2 :=
      (CacheSteps.refl t).store trivial
    exact hdiscard ▸ hlater.calls_isPrefix
  next t heq =>
    rw [heq] at hdiscard
    exact hdiscard ▸ List.prefix_rfl

/-- Once the cache was given up, a full fetch only asks for the conversation. -/
lemma snd_refreshWhole [Remote ρ] (hs : s.degraded = true) (conversation : String) :
    (s.refreshWhole conversation).2 = (s.askSnapshot conversation).2 := by
  have hasked : (s.askSnapshot conversation).2.degraded = true := hs
  unfold refreshWhole
  split
  next heq => rw [heq]
  next full t heq =>
    rw [heq] at hasked ⊢
    dsimp only
    rw [overwrite, discard, if_pos hasked]

end Use

/-! ### Asking the remote store -/

section Asking

variable [Remote ρ] {s s' : Stores ρ κ} {conversation : String}

omit [Cache κ] in
/-- Asking for the outline is noted, and leaves the cache alone. -/
lemma askOutline_frame {reply : Except Failure Outline} (h : s.askOutline conversation = (reply, s')) :
    s'.calls = s.calls ++ [.outline conversation reply] ∧ s'.cache = s.cache ∧
      s'.degraded = s.degraded := by
  obtain ⟨rfl, rfl⟩ := Prod.mk.inj h
  exact ⟨rfl, rfl, rfl⟩

omit [Cache κ] in
/-- Asking for a whole conversation is noted, and leaves the cache alone. -/
lemma askSnapshot_frame {reply : Except Failure Snapshot}
    (h : s.askSnapshot conversation = (reply, s')) :
    s'.calls = s.calls ++ [.snapshot conversation reply] ∧ s'.cache = s.cache ∧
      s'.degraded = s.degraded := by
  obtain ⟨rfl, rfl⟩ := Prod.mk.inj h
  exact ⟨rfl, rfl, rfl⟩

end Asking

/-! ### Calls between two states -/

/-- A call was made between two states. -/
def Noted (s s' : Stores ρ κ) (call : Call) : Prop :=
  ∃ made, s'.calls = s.calls ++ made ∧ call ∈ made

omit [Cache κ] in
/-- A call made between two states was made between an earlier and a later one. -/
lemma Noted.mono {s t t' s' : Stores ρ κ} {call : Call} (h : Noted t t' call)
    (hs : s.calls <+: t.calls) (hs' : t'.calls <+: s'.calls) : Noted s s' call := by
  obtain ⟨made, hmade, hcall⟩ := h
  obtain ⟨before, hbefore⟩ := hs
  obtain ⟨after, hafter⟩ := hs'
  refine ⟨before ++ made ++ after, ?_, by simp [hcall]⟩
  rw [← hafter, hmade, ← hbefore]
  simp

omit [Cache κ] in
/-- A call made between two states is among the calls by which their notes differ. -/
lemma Noted.mem {s s' : Stores ρ κ} {call : Call} {made : List Call} (h : Noted s s' call)
    (hmade : s'.calls = s.calls ++ made) : call ∈ made := by
  obtain ⟨made', hmade', hcall⟩ := h
  rwa [List.append_cancel_left (hmade.symm.trans hmade')]

/-- Cached records were returned by a call. -/
lemma exists_noted_of_cachedRecords {s : Stores ρ κ} {conversation : String} {r : Record}
    (hr : r ∈ (s.cachedRecords conversation).1.getD []) :
    ∃ records, Noted s (s.cachedRecords conversation).2 (.read conversation (.ok records)) ∧
      r ∈ records := by
  unfold cachedRecords at hr ⊢
  split at hr
  · cases hr
  next hdegraded =>
    rw [if_neg hdegraded]
    cases hread : (Cache.read conversation s.cache).1 with
    | error e => simp [callRead, hread, Except.toOption] at hr
    | ok records =>
      simp only [callRead, hread, Except.toOption, Option.getD_some] at hr
      refine ⟨records, ⟨[.read conversation (.ok records)], ?_, List.mem_singleton_self _⟩, hr⟩
      simp [callRead, hread, note]

/-! ### Properties that the cache keeps -/

/-- A property of caches that is kept by every call about a conversation that writes good records, and
under which only good records of the conversation are read. -/
structure Keeps (holds : κ → Prop) (conversation : String) (good : Record → Prop) : Prop where
  /-- Reading keeps the property. -/
  read : ∀ k, holds k → holds (Cache.read conversation k).2
  /-- What is read is good. -/
  good_of_read : ∀ k records, holds k → (Cache.read conversation k).1 = .ok records →
    ∀ r ∈ records, good r
  /-- Writing good records keeps the property. -/
  put : ∀ k records, holds k → (∀ r ∈ records, good r) → holds (Cache.put records k).2
  /-- Dropping the records of the conversation keeps the property. -/
  drop : ∀ k, holds k → holds (Cache.drop conversation k).2
  /-- Dropping everything keeps the property. -/
  clear : ∀ k, holds k → holds (Cache.clear k).2

namespace Keeps

variable {holds : κ → Prop} {conversation : String} {good : Record → Prop} {s s' : Stores ρ κ}

/-- Steps that write good records keep the property. -/
lemma of_cacheSteps (hk : Keeps holds conversation good)
    (h : CacheSteps conversation (fun records => ∀ r ∈ records, good r) s s')
    (hs : holds s.cache) : holds s'.cache := by
  induction h with
  | refl => exact hs
  | read _ ih => exact hk.read _ ih
  | put _ hbatch ih => exact hk.put _ _ ih hbatch
  | drop _ ih => exact hk.drop _ ih
  | clear _ ih => exact hk.clear _ ih
  | giveUp _ ih => exact ih

/-- The cached records are good. -/
lemma good_of_cachedRecords (hk : Keeps holds conversation good) (hs : holds s.cache) {r : Record}
    (hr : r ∈ (s.cachedRecords conversation).1.getD []) : good r := by
  unfold Stores.cachedRecords at hr
  split at hr
  · cases hr
  · dsimp only [callRead] at hr
    cases hread : (Cache.read conversation s.cache).1 with
    | error e => simp [hread, Except.toOption] at hr
    | ok records =>
      rw [hread] at hr
      exact hk.good_of_read _ records hs hread r hr

end Keeps

end Stores

end DialogueSync.Client
