import DialogueSync.Proofs.Client.Course
import DialogueSync.Proofs.Client.Wholeness

/-!
# What a write says and does

A cache in memory, with any limit, stands behind any schedule of failures. A call that fails, because it is due to or
because the cache is full, leaves the records as they are. So a write takes one of few courses (`Writes`), and what it
says agrees with what it leaves: if it reports success, the last record with each key is there, and if it reports
failure, nothing has changed unless the cache was cleared (`TellsTruth`).

Putting records in the place of those of a conversation drops these first. If that fails nothing is written; if
everything succeeds, the conversation has the new records and no others (`Replaces`).
-/

namespace DialogueSync.Client.Stores

open Cache (Key Memory Record Scripted)
open Cache.Memory (Latest)

variable {ρ : Type} {s t : Stores ρ (Scripted Memory)} {batch : List Record} {conversation : String} {e : Failure}
  {before after : Memory} {made : List Call} {dropped stored : Bool}

/-! ### Single calls -/

/-- A call behind a schedule that fails leaves alone what is there, if it does so when it fails by itself. -/
lemma inner_pass_of_error {κ α : Type} {failure : Option Failure} {call : κ → Except Failure α × κ} {k : Scripted κ}
    (hcall : ∀ e, (call k.inner).1 = .error e → (call k.inner).2 = k.inner)
    (h : (Scripted.pass failure call k).1 = .error e) : (Scripted.pass failure call k).2.inner = k.inner := by
  rcases pass_cases failure call k with ⟨e', hpass⟩ | hpass
  · rw [hpass]
  · rw [hpass] at h ⊢
    exact hcall e h

/-- A batch whose write fails leaves the records as they are. -/
lemma inner_callPut_of_error (h : s.callPut batch = (.error e, t)) : t.cache.inner = s.cache.inner := by
  have hreply : (Cache.put batch s.cache).1 = .error e := congrArg Prod.fst h
  rw [← show (Cache.put batch s.cache).2 = t.cache from congrArg (fun reply => reply.2.cache) h]
  refine inner_pass_of_error (fun e' hput => ?_) hreply
  by_cases hfits : (s.cache.inner.written batch).Fits
  · rw [Memory.cache_put_of_fits hfits] at hput
    cases hput
  · exact congrArg Prod.snd (Memory.cache_put_of_not_fits hfits)

/-- If the records of a conversation cannot be dropped, all records stay as they are. -/
lemma inner_callDrop_of_error (h : s.callDrop conversation = (.error e, t)) : t.cache.inner = s.cache.inner := by
  have hreply : (Cache.drop conversation s.cache).1 = .error e := congrArg Prod.fst h
  rw [← show (Cache.drop conversation s.cache).2 = t.cache from congrArg (fun reply => reply.2.cache) h]
  exact inner_pass_of_error (fun e' hdrop => by cases hdrop) hreply

/-- If the cache cannot be cleared, all records stay as they are. -/
lemma inner_callClear_of_error (h : s.callClear = (.error e, t)) : t.cache.inner = s.cache.inner := by
  have hreply : (Cache.clear s.cache).1 = .error e := congrArg Prod.fst h
  rw [← show (Cache.clear s.cache).2 = t.cache from congrArg (fun reply => reply.2.cache) h]
  exact inner_pass_of_error (fun e' hclear => by cases hclear) hreply

/-- A cache that is cleared without failing is empty. -/
lemma inner_callClear_of_ok (h : s.callClear = (.ok (), t)) : t.cache.inner = s.cache.inner.clear := by
  have hreply : (Cache.clear s.cache).1 = .ok () := congrArg Prod.fst h
  rw [← show (Cache.clear s.cache).2 = t.cache from congrArg (fun reply => reply.2.cache) h]
  exact (of_pass_ok hreply).2

/-! ### Writing -/

/-- The calls of a write, what it reports, and what it leaves in the cache. -/
inductive Writes (batch : List Record) (before : Memory) : List Call → Bool → Memory → Prop where
  /-- There is nothing to write. -/
  | nothing (h : batch = []) : Writes batch before [] true before
  /-- The batch is written. -/
  | written : Writes batch before [.put batch (.ok ())] true (before.written batch)
  /-- The batch is refused, and not because the cache is full. -/
  | refused {e : Failure} (h : e.isFull = false) : Writes batch before [.put batch (.error e)] false before
  /-- The cache is full and cannot be cleared. -/
  | stuck {e e' : Failure} (h : e.isFull = true) :
      Writes batch before [.put batch (.error e), .clear (.error e')] false before
  /-- The cache is full, and the batch is written after it was cleared. -/
  | rewritten {e : Failure} (h : e.isFull = true) :
      Writes batch before [.put batch (.error e), .clear (.ok ()), .put batch (.ok ())] true
        (before.clear.written batch)
  /-- The cache is full, and the batch is refused again after it was cleared. -/
  | emptied {e e' : Failure} (h : e.isFull = true) :
      Writes batch before [.put batch (.error e), .clear (.ok ()), .put batch (.error e')] false before.clear

/-- A batch that was refused by a full cache is written again if the cache can be cleared. -/
lemma exists_writes_clearAndRetry (hfull : e.isFull = true) (hput : s.callPut batch = (.error e, t)) :
    ∃ made, (t.clearAndRetry batch).2.calls = s.calls ++ made ∧
      Writes batch s.cache.inner made (t.clearAndRetry batch).1 (t.clearAndRetry batch).2.cache.inner := by
  have hcalls := (callPut_frame hput).1
  have hinner := inner_callPut_of_error hput
  unfold clearAndRetry
  split
  next e' t' hclear =>
    refine ⟨[.put batch (.error e), .clear (.error e')], ?_, ?_⟩
    · change t'.calls = _
      rw [(callClear_frame hclear).1, hcalls, List.append_assoc]
      rfl
    · change Writes batch s.cache.inner _ false t'.cache.inner
      rw [inner_callClear_of_error hclear, hinner]
      exact .stuck hfull
  next t' hclear =>
    have hcalls' := (callClear_frame hclear).1
    have hinner' := inner_callClear_of_ok hclear
    split
    next t'' hretry =>
      refine ⟨[.put batch (.error e), .clear (.ok ()), .put batch (.ok ())], ?_, ?_⟩
      · rw [(callPut_frame hretry).1, hcalls', hcalls, List.append_assoc, List.append_assoc]
        rfl
      · rw [inner_callPut hretry, hinner', hinner]
        exact .rewritten hfull
    next e' t'' hretry =>
      refine ⟨[.put batch (.error e), .clear (.ok ()), .put batch (.error e')], ?_, ?_⟩
      · change t''.calls = _
        rw [(callPut_frame hretry).1, hcalls', hcalls, List.append_assoc, List.append_assoc]
        rfl
      · change Writes batch s.cache.inner _ false t''.cache.inner
        rw [inner_callPut_of_error hretry, hinner', hinner]
        exact .emptied hfull

/-- With a cache in use, storing a batch takes one of these courses. -/
lemma exists_writes_store (hs : s.degraded = false) (batch : List Record) :
    ∃ made, (s.store batch).2.calls = s.calls ++ made ∧
      Writes batch s.cache.inner made (s.store batch).1 (s.store batch).2.cache.inner := by
  unfold store
  rw [if_neg (by simp [hs])]
  split
  next hnil => exact ⟨[], (List.append_nil _).symm, .nothing (List.isEmpty_iff.mp hnil)⟩
  next =>
    split
    next t hput =>
      refine ⟨[.put batch (.ok ())], (callPut_frame hput).1, ?_⟩
      rw [inner_callPut hput]
      exact .written
    next e t hput =>
      split
      next hfull => exact exists_writes_clearAndRetry hfull hput
      next hfull =>
        refine ⟨[.put batch (.error e)], (callPut_frame hput).1, ?_⟩
        rw [inner_callPut_of_error hput]
        exact .refused (by simpa using hfull)

/-- What is true of the calls of a write, of what it reports and of what it leaves in the cache. -/
structure TellsTruth (batch : List Record) (before : Memory) (made : List Call) (stored : Bool) (after : Memory) :
    Prop where
  /-- The batch is written; if the cache is full, it is cleared, and if that succeeds, the batch is written again. -/
  calls : (∃ reply, made = [.put batch reply] ∧ ∀ e, reply = .error e → e.isFull = false) ∨
    (∃ e e' : Failure, e.isFull = true ∧ made = [.put batch (.error e), .clear (.error e')]) ∨
    ∃ e reply, e.isFull = true ∧ made = [.put batch (.error e), .clear (.ok ()), .put batch reply]
  /-- Success is reported if the last call was to write the batch, and succeeded. -/
  stored_iff : stored = true ↔ made.getLast? = some (.put batch (.ok ()))
  /-- If success is reported, the last record with each key of the batch is in the cache. -/
  latest : stored = true → ∀ r ∈ batch, ∃ last, Latest batch last ∧ last.key = r.key ∧ after.records[r.key]? = some last
  /-- All other records are as they were, or all of them are gone because the cache was cleared. -/
  others : stored = true →
    (∀ k : Key, (∀ r ∈ batch, r.key ≠ k) → after.records[k]? = before.records[k]?) ∨
      .clear (.ok ()) ∈ made ∧ ∀ k : Key, (∀ r ∈ batch, r.key ≠ k) → k ∉ after.records
  /-- If failure is reported, the cache is as it was unless it was cleared. -/
  unchanged : stored = false → .clear (.ok ()) ∉ made → after = before
  /-- If failure is reported and the cache was cleared, it is empty. -/
  cleared : stored = false → .clear (.ok ()) ∈ made → after = before.clear

/-- What a write leaves if it reports success. -/
lemma Writes.after_cases (h : Writes batch before made true after) :
    after = before.written batch ∨ .clear (.ok ()) ∈ made ∧ after = before.clear.written batch := by
  cases h with
  | nothing hnil =>
    rw [hnil, Memory.written_nil]
    exact Or.inl rfl
  | written => exact Or.inl rfl
  | rewritten => exact Or.inr ⟨by simp, rfl⟩

/-- After writing to a cache without records there are only those of the batch. -/
lemma not_mem_clear_written {k : Key} (hk : ∀ r ∈ batch, r.key ≠ k) : k ∉ (before.clear.written batch).records := by
  intro hmem
  rcases Memory.mem_insertAll_iff.mp hmem with ⟨r, hr, hkey⟩ | hmem
  · exact hk r hr hkey
  · exact Std.ExtTreeMap.not_mem_empty hmem

/-- A write of a batch that is not empty tells the truth. -/
lemma Writes.tellsTruth (h : Writes batch before made stored after) (hbatch : batch ≠ []) :
    TellsTruth batch before made stored after := by
  constructor
  case calls =>
    cases h with
    | nothing hnil => exact absurd hnil hbatch
    | written => exact Or.inl ⟨.ok (), rfl, fun e he => by cases he⟩
    | refused hfull => exact Or.inl ⟨_, rfl, fun e he => Except.error.inj he ▸ hfull⟩
    | stuck hfull => exact Or.inr (Or.inl ⟨_, _, hfull, rfl⟩)
    | rewritten hfull => exact Or.inr (Or.inr ⟨_, _, hfull, rfl⟩)
    | emptied hfull => exact Or.inr (Or.inr ⟨_, _, hfull, rfl⟩)
  case stored_iff =>
    cases h with
    | nothing hnil => exact absurd hnil hbatch
    | _ => simp
  -- A batch that has been written is found, whether the cache was cleared for it or not.
  case latest =>
    rintro rfl r hr
    obtain ⟨last, hlast, hkey⟩ := Memory.exists_latest hr
    refine ⟨last, hlast, hkey, ?_⟩
    rw [← hkey]
    rcases h.after_cases with rfl | ⟨-, rfl⟩
    · exact hlast.getElem?_insertAll _
    · exact hlast.getElem?_insertAll _
  case others =>
    rintro rfl
    rcases h.after_cases with rfl | ⟨hclear, rfl⟩
    · exact Or.inl fun k hk => Memory.getElem?_insertAll_of_forall_ne hk
    · exact Or.inr ⟨hclear, fun k hk => not_mem_clear_written hk⟩
  case unchanged =>
    rintro rfl hclear
    cases h with
    | refused => rfl
    | stuck => rfl
    | emptied => exact absurd (by simp) hclear
  case cleared =>
    rintro rfl hclear
    cases h with
    | refused => simp at hclear
    | stuck => simp at hclear
    | emptied => rfl

/-! ### Replacing the records of a conversation -/

/-- Whether the records of a conversation are dropped, the calls that replace them, what is reported, and what is left
in the cache. -/
inductive Overwrites (conversation : String) (batch : List Record) (before : Memory) :
    Bool → List Call → Bool → Memory → Prop where
  /-- The cache was given up before. -/
  | givenUp : Overwrites conversation batch before false [] false before
  /-- The records of the conversation cannot be dropped. -/
  | kept {e : Failure} : Overwrites conversation batch before false [.drop conversation (.error e)] false before
  /-- The records of the conversation are dropped, and the batch is written or not. -/
  | dropped {made : List Call} {stored : Bool} {after : Memory}
      (h : Writes batch (before.drop conversation) made stored after) :
      Overwrites conversation batch before true (.drop conversation (.ok ()) :: made) stored after

/-- Replacing the records of a conversation takes one of these courses. -/
lemma exists_overwrites_overwrite (s : Stores ρ (Scripted Memory)) (conversation : String) (batch : List Record) :
    ∃ made, (s.overwrite conversation batch).2.calls = s.calls ++ made ∧
      Overwrites conversation batch s.cache.inner (s.discard conversation).1 made (s.overwrite conversation batch).1
        (s.overwrite conversation batch).2.cache.inner := by
  cases hs : s.degraded with
  | true =>
    have hdiscard : s.discard conversation = (false, s) := by rw [discard, if_pos hs]
    rw [overwrite, hdiscard]
    exact ⟨[], (List.append_nil _).symm, .givenUp⟩
  | false =>
    cases hcall : s.callDrop conversation with
    | mk reply t =>
      have hcalls : t.calls = s.calls ++ [.drop conversation reply] := by
        obtain ⟨rfl, rfl⟩ := Prod.mk.inj hcall
        rfl
      cases reply with
      | error e =>
        have hdiscard : s.discard conversation = (false, t) := by
          rw [discard, if_neg (by simp [hs]), hcall]
        rw [overwrite, hdiscard]
        refine ⟨_, hcalls, ?_⟩
        change Overwrites conversation batch s.cache.inner false _ false t.cache.inner
        rw [inner_callDrop_of_error hcall]
        exact .kept
      | ok _ =>
        have hdiscard : s.discard conversation = (true, t) := by
          rw [discard, if_neg (by simp [hs]), hcall]
        have hdegraded : t.degraded = false := by
          obtain ⟨-, rfl⟩ := Prod.mk.inj hcall
          exact hs
        rw [overwrite, hdiscard]
        obtain ⟨made, hmade, hwrites⟩ := exists_writes_store hdegraded batch
        refine ⟨.drop conversation (.ok ()) :: made, ?_, ?_⟩
        · change (t.store batch).2.calls = _
          rw [hmade, hcalls, List.append_assoc]
          rfl
        · rw [inner_callDrop_of_ok hcall] at hwrites
          exact .dropped hwrites

/-- What is true of the calls that replace the records of a conversation, of what is reported and of what is left in the
cache. -/
structure Replaces (conversation : String) (batch : List Record) (before : Memory) (made : List Call) (stored : Bool)
    (after : Memory) : Prop where
  /-- If success is reported, the records of the conversation are the last ones of the batch with their ids. -/
  mem_recordsOf_iff : stored = true → ∀ r, r ∈ after.recordsOf conversation ↔ Latest batch r
  /-- No id has two of them. -/
  pairwise_recordsOf : stored = true → (after.recordsOf conversation).Pairwise fun r r' => compare r.id r'.id = .lt
  /-- The records of other conversations are as they were, or all of them are gone because the cache was cleared. -/
  others : stored = true →
    (∀ k : Key, k.conversation ≠ conversation → after.records[k]? = before.records[k]?) ∨
      .clear (.ok ()) ∈ made ∧ ∀ k : Key, k.conversation ≠ conversation → k ∉ after.records

/-- Nothing is written if the records of the conversation are not dropped. -/
lemma Overwrites.not_put (h : Overwrites conversation batch before dropped made stored after)
    (hkept : dropped = false) : stored = false ∧ after = before ∧ ∀ records reply, .put records reply ∉ made := by
  cases h with
  | givenUp => exact ⟨rfl, rfl, by simp⟩
  | kept => exact ⟨rfl, rfl, by simp⟩
  | dropped => cases hkept

/-- What is left if success is reported. -/
lemma Overwrites.after_cases (h : Overwrites conversation batch before dropped made true after) :
    after = (before.drop conversation).written batch ∨
      .clear (.ok ()) ∈ made ∧ after = before.clear.written batch := by
  cases h with
  | dropped hwrites =>
    rcases hwrites.after_cases with rfl | ⟨hclear, rfl⟩
    · exact Or.inl rfl
    · exact Or.inr ⟨List.mem_cons_of_mem _ hclear, rfl⟩

/-- Records of a conversation that are written where it has none are its records, of each id the last one. -/
lemma getElem?_written_eq_some_iff (hbatch : ∀ r ∈ batch, r.conversation = conversation)
    (hbefore : before.recordsOf conversation = []) {id : String} {r : Record} :
    (before.written batch).records[(⟨conversation, id⟩ : Key)]? = some r ↔ Latest batch r ∧ r.id = id := by
  have hnone : before.records[(⟨conversation, id⟩ : Key)]? = none := by
    refine Option.eq_none_iff_forall_ne_some.mpr fun old hold => ?_
    have hmem := Memory.mem_recordsOf_iff.mpr ⟨id, hold⟩
    rw [hbefore] at hmem
    cases hmem
  constructor
  · intro hr
    have hr' := Memory.getElem?_insertAll before.records batch ⟨conversation, id⟩
    rw [hnone, Option.or_none] at hr'
    have hlast := hr'.symm.trans hr
    have hkey : r.key = ⟨conversation, id⟩ := by
      rw [List.findRev?_eq_find?_reverse] at hlast
      simpa using List.find?_some hlast
    refine ⟨Memory.latest_iff_findRev?.mpr ?_, congrArg Key.id hkey⟩
    rw [hkey]
    exact hlast
  · rintro ⟨hlast, rfl⟩
    have hmem : r ∈ batch := by
      obtain ⟨earlier, later, rfl, -⟩ := hlast
      simp
    rw [← hbatch r hmem]
    exact hlast.getElem?_insertAll before.records

/-- Records of a conversation that are put in the place of those that it has replace them. -/
lemma Overwrites.replaces (h : Overwrites conversation batch before dropped made stored after)
    (hbatch : ∀ r ∈ batch, r.conversation = conversation) :
    Replaces conversation batch before made stored after := by
  have hfound : stored = true → ∀ id r, after.records[(⟨conversation, id⟩ : Key)]? = some r ↔
      Latest batch r ∧ r.id = id := by
    rintro rfl id r
    rcases h.after_cases with rfl | ⟨-, rfl⟩
    · exact getElem?_written_eq_some_iff hbatch (Memory.recordsOf_drop_self before conversation)
    · refine getElem?_written_eq_some_iff hbatch (List.eq_nil_iff_forall_not_mem.mpr fun r hr => ?_)
      obtain ⟨id, hid⟩ := Memory.mem_recordsOf_iff.mp hr
      rw [Memory.clear, Std.ExtTreeMap.getElem?_empty] at hid
      cases hid
  have hne : ∀ k : Key, k.conversation ≠ conversation → ∀ r ∈ batch, r.key ≠ k :=
    fun k hk r hr hkey => hk (hkey ▸ hbatch r hr)
  constructor
  case mem_recordsOf_iff =>
    intro hstored r
    rw [Memory.mem_recordsOf_iff]
    constructor
    · rintro ⟨id, hid⟩
      exact ((hfound hstored id r).mp hid).1
    · exact fun hlast => ⟨r.id, (hfound hstored r.id r).mpr ⟨hlast, rfl⟩⟩
  case pairwise_recordsOf =>
    exact fun hstored => Memory.pairwise_recordsOf fun id r hr => ((hfound hstored id r).mp hr).2
  case others =>
    rintro rfl
    rcases h.after_cases with rfl | ⟨hclear, rfl⟩
    · refine Or.inl fun k hk => ?_
      refine (Memory.getElem?_insertAll_of_forall_ne (hne k hk)).trans ?_
      rw [Memory.drop, Std.ExtTreeMap.getElem?_filter']
      cases before.records[k]? <;> simp [hk]
    · exact Or.inr ⟨hclear, fun k hk => not_mem_clear_written (hne k hk)⟩

/-- Whatever a cache in memory holds, whatever its limit is and whichever of its calls are due to fail, a write to it
tells the truth, and putting records of a conversation in the place of those that it has replaces them if success is
reported. If those could not be dropped, nothing is written. -/
theorem tellsTruth_and_replaces (s : Stores ρ (Scripted Memory)) (conversation : String) (batch : List Record) :
    (s.degraded = false → batch ≠ [] → ∃ made, (s.store batch).2.calls = s.calls ++ made ∧
      TellsTruth batch s.cache.inner made (s.store batch).1 (s.store batch).2.cache.inner) ∧
    ∃ made, (s.overwrite conversation batch).2.calls = s.calls ++ made ∧
      ((∀ r ∈ batch, r.conversation = conversation) →
        Replaces conversation batch s.cache.inner made (s.overwrite conversation batch).1
          (s.overwrite conversation batch).2.cache.inner) ∧
      ((s.discard conversation).1 = false → (s.overwrite conversation batch).1 = false ∧
        (s.overwrite conversation batch).2.cache.inner = s.cache.inner ∧
        ∀ records reply, .put records reply ∉ made) := by
  constructor
  · intro hs hbatch
    obtain ⟨made, hmade, hwrites⟩ := exists_writes_store hs batch
    exact ⟨made, hmade, hwrites.tellsTruth hbatch⟩
  · obtain ⟨made, hmade, hoverwrites⟩ := exists_overwrites_overwrite s conversation batch
    exact ⟨made, hmade, hoverwrites.replaces, hoverwrites.not_put⟩

/-- A cache with room for one record, which is that of another conversation. -/
def crowded : Stores Remote.Archive (Scripted Memory) where
  remote := ∅
  cache := { inner := {
    records := Memory.insertAll ∅ [⟨"other", Message.ask "Who?" "x" 1, "", 1⟩]
    quota := some 1 } }

/-- A question in two wordings. -/
def reworded : List Record :=
  [⟨"c", Message.ask "Why" "a" 1, "", 2⟩, ⟨"c", Message.ask "Why?" "a" 1, "", 2⟩]

/-- Both ways of writing the question clear the cache, which then holds the second wording and nothing else. -/
theorem tellsTruth_and_replaces_crowded :
    (∃ made, (crowded.store reworded).2.calls = crowded.calls ++ made ∧
      TellsTruth reworded crowded.cache.inner made true (crowded.store reworded).2.cache.inner) ∧
    (∃ made, (crowded.overwrite "c" reworded).2.calls = crowded.calls ++ made ∧
      Replaces "c" reworded crowded.cache.inner made true (crowded.overwrite "c" reworded).2.cache.inner) ∧
    (crowded.overwrite "c" reworded).2.cache.inner.records.values.map (fun r => r.message.content) = ["Why?"] := by
  obtain ⟨hstore, made, hmade, hreplaces, -⟩ := tellsTruth_and_replaces crowded "c" reworded
  have hstored : (crowded.store reworded).1 = true := by decide +kernel
  have hoverwritten : (crowded.overwrite "c" reworded).1 = true := by decide +kernel
  have hbatch : ∀ r ∈ reworded, r.conversation = "c" := by decide +kernel
  rw [hstored] at hstore
  rw [hoverwritten] at hreplaces
  exact ⟨hstore rfl (List.cons_ne_nil _ _), ⟨made, hmade, hreplaces hbatch⟩, by decide +kernel⟩

end DialogueSync.Client.Stores
