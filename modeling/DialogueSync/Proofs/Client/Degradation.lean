import DialogueSync.Cache.Memory
import DialogueSync.Cache.Scripted
import DialogueSync.Proofs.Client.Course
import DialogueSync.Proofs.Client.Soundness
import DialogueSync.Remote.Archive

/-!
# Sessions without a cache

A session whose cache was given up goes on without it. An operation gives the cache up exactly if a write fails
for good in the course of it, and only clearing the cache at the user's wish puts it to use again
(`Sound.degraded_after_iff`). Until then that is the one call that is ever made on it, and loading a conversation
is a single question to the remote store (`Sound.abstains_of_degraded`). While the cache is in use, every
operation that has anything to do with the stores starts on it as soon as it can (`Sound.opening_of_in_use`).
-/

namespace DialogueSync.Client

open Cache (Memory Record Scripted)
open DialogueSync.Tree (Linked)

variable {ρ κ : Type} [Remote ρ] [Cache κ] {conversation : String}

namespace Stores

variable {s s' : Stores ρ κ}

/-- With a cache in use, a full fetch drops the records of the conversation once it has come. -/
lemma calls_refreshWhole_cases (hs : s.degraded = false) {reply : Except Failure (Tree × Report)}
    (h : s.refreshWhole conversation = (reply, s')) :
    (∃ outcome full dropped rest, reply = .ok outcome ∧ s'.calls = s.calls ++
        .snapshot conversation (.ok full) :: .drop conversation dropped :: rest) ∨
      ∃ e, reply = .error e ∧ s'.degraded = false ∧
        s'.calls = s.calls ++ [.snapshot conversation (.error e)] := by
  obtain ⟨e, rfl, hask⟩ | ⟨full, answered, hask, rfl, rfl⟩ := refreshWhole_cases h
  · obtain ⟨hcalls, -, hdegraded⟩ := askSnapshot_frame hask
    exact Or.inr ⟨e, rfl, hdegraded.trans hs, hcalls⟩
  · obtain ⟨hcalls, -, hdegraded⟩ := askSnapshot_frame hask
    obtain ⟨rest, hrest⟩ := calls_callDrop_isPrefix (hdegraded.trans hs) conversation
      ((treeOf full).messages.values.map (snapshotRecord conversation full answered.clock))
    refine Or.inl ⟨_, full, (answered.callDrop conversation).1, rest, rfl, hrest.symm.trans ?_⟩
    change (answered.calls ++ _) ++ rest = _
    rw [hcalls, List.append_assoc, List.append_assoc]
    rfl

/-- With a cache in use, synchronising goes to it once the remote store has answered. -/
lemma calls_refresh_cases (hs : s.degraded = false) {reply : Except Failure (Tree × Report)}
    (h : s.refresh conversation = (reply, s')) :
    (∃ o read rest, s'.calls = s.calls ++
        .outline conversation (.ok o) :: .read conversation read :: rest) ∨
      (∃ outcome e full dropped rest, reply = .ok outcome ∧ s'.calls = s.calls ++
        .outline conversation (.error e) :: .snapshot conversation (.ok full) ::
          .drop conversation dropped :: rest) ∨
      ∃ e e', reply = .error e' ∧ s'.degraded = false ∧ s'.calls = s.calls ++
        [.outline conversation (.error e), .snapshot conversation (.error e')] := by
  cases hask : s.askOutline conversation with
  | mk answer asked =>
    obtain ⟨hcalls, -, hdegraded⟩ := askOutline_frame hask
    have hasked : asked.degraded = false := hdegraded.trans hs
    cases answer with
    | ok o =>
      have hread : Proceeds (asked.callRead conversation).2 s' := by
        have hlater := (proceeds_refreshChanged_of_ok hask).trans (proceeds_refresh_of_refreshChanged hs)
        rw [h, cachedRecords, if_neg (by simp [hasked])] at hlater
        exact hlater
      obtain ⟨rest, hrest⟩ := hread.calls_isPrefix
      refine Or.inl ⟨o, (asked.callRead conversation).1, rest, hrest.symm.trans ?_⟩
      change (asked.calls ++ _) ++ rest = _
      rw [hcalls, List.append_assoc, List.append_assoc]
      rfl
    | error e =>
      have hwhole : asked.refreshWhole conversation = (reply, s') := by
        rwa [refresh, if_neg (by simp [hs]), refreshChanged_of_error hask] at h
      refine Or.inr ?_
      rcases calls_refreshWhole_cases hasked hwhole with
        ⟨outcome, full, dropped, rest, rfl, hend⟩ | ⟨e', rfl, hdegraded, hend⟩
      · refine Or.inl ⟨outcome, e, full, dropped, rest, rfl, ?_⟩
        rw [hend, hcalls, List.append_assoc]
        rfl
      · refine Or.inr ⟨e, e', rfl, hdegraded, ?_⟩
        rw [hend, hcalls, List.append_assoc]
        rfl

end Stores

namespace Session

open Stores (Proceeds)

variable {s s' : Session ρ κ} {op : Operation} {made : List Call}

/-! ### The calls of an operation -/

/-- The calls that an operation makes. -/
def callsOf (s : Session ρ κ) (op : Operation) : List Call :=
  (s.after op).stores.calls.drop s.stores.calls.length

lemma callsOf_eq (h : (s.after op).stores.calls = s.stores.calls ++ made) : s.callsOf op = made := by
  rw [callsOf, h, List.drop_left]

/-- Some write of the operation fails for good. -/
def GivesUp (s : Session ρ κ) (op : Operation) : Prop :=
  ∃ calls, FailedWrite calls ∧ calls <:+: s.callsOf op

/-- The cache is cleared at the user's wish. -/
def Readmits (s : Session ρ κ) (op : Operation) : Prop :=
  op = .recoverCache ∧ s.callsOf op = [.clear (.ok ())]

/-- A step proceeds, unless it is to clear the cache. -/
lemma Step.proceeds (h : Step conversation s op s') (hop : op ≠ .recoverCache) :
    Proceeds s.stores s'.stores := by
  have hconcluded : ∀ {s₀ : Session ρ κ} {m : Message}, s₀.stores = s.stores →
      Proceeds s.stores (s₀.concluded conversation m).stores := by
    intro s₀ m heq
    rw [stores_concluded, heq]
    exact (Stores.proceeds_store _ _).trans (Stores.proceeds_save _ _ _)
  cases h with
  | recoverCache => exact absurd rfl hop
  | attach => exact Stores.proceeds_store _ _
  | last => exact hconcluded rfl
  | conclude => exact hconcluded rfl
  | delete =>
    rw [stores_save]
    exact (Stores.proceeds_overwrite s.stores conversation _).trans (Stores.proceeds_save _ _ _)
  | reload hrefresh => exact Stores.proceeds_refresh hrefresh
  | fail hrefresh => exact Stores.proceeds_refresh hrefresh
  | _ => exact .refl s.stores

/-- So does whatever else an operation can do. -/
lemma Move.proceeds (h : Move s op s') (hop : op ≠ .recoverCache) : Proceeds s.stores s'.stores := by
  cases h with
  | remain _ _ hstep => exact hstep.proceeds hop
  | recoverCache => exact absurd rfl hop
  | switch _ hrefresh => exact Stores.proceeds_refresh hrefresh
  | @switchOffline conversation _ _ stores hrefresh =>
    exact (Stores.proceeds_refresh hrefresh).trans (Stores.proceeds_cachedRecords stores conversation)
  | _ => exact .refl s.stores

/-- The calls of an operation take their course, unless it is to clear the cache. -/
lemma Sound.course (h : Sound s) (hop : op ≠ .recoverCache) :
    Course s.stores.degraded (s.callsOf op) (s.after op).stores.degraded := by
  obtain ⟨made, hmade, hcourse⟩ := (h.move_after op).proceeds hop
  rwa [callsOf_eq hmade]

omit [Remote ρ] in
/-- Clearing the cache is one call, and if it succeeds the cache is in use again. -/
lemma recoverCache_eq (s : Session ρ κ) :
    s.recoverCache.2.stores.calls = s.stores.calls ++ [.clear s.stores.callClear.1] ∧
      (s.recoverCache.2.stores.degraded = true ↔
        s.stores.callClear.1 ≠ .ok () ∧ s.stores.degraded = true) := by
  change s.stores.recover.2.calls = _ ∧ (s.stores.recover.2.degraded = true ↔ _)
  unfold Stores.recover
  cases hclear : s.stores.callClear with
  | mk reply cleared =>
    obtain ⟨hcalls, hdegraded⟩ := Stores.callClear_frame hclear
    cases reply with
    | ok => exact ⟨hcalls, by simp⟩
    | error e =>
      refine ⟨hcalls, ?_⟩
      change cleared.degraded = true ↔ _
      rw [hdegraded]
      simp

/-- To recover the cache takes one call, which clears it. -/
lemma callsOf_recoverCache (s : Session ρ κ) :
    s.callsOf .recoverCache = [.clear s.stores.callClear.1] :=
  callsOf_eq s.recoverCache_eq.1

/-- Whether the cache is given up is decided by a write that fails for good, or by clearing the cache at the
user's wish. -/
theorem Sound.degraded_after_iff (h : Sound s) (op : Operation) :
    (s.after op).stores.degraded = true ↔
      GivesUp s op ∨ ¬ Readmits s op ∧ s.stores.degraded = true := by
  by_cases hop : op = .recoverCache
  · subst hop
    have hnot : ¬ GivesUp s .recoverCache := by
      rintro ⟨calls, hfailed, hinfix⟩
      obtain ⟨records, e, reply, rest, rfl, -⟩ := hfailed.exists_cons
      rw [callsOf_recoverCache] at hinfix
      have hlength := hinfix.length_le
      simp at hlength
    rw [or_iff_right hnot, Readmits, callsOf_recoverCache, and_iff_right rfl]
    change s.recoverCache.2.stores.degraded = true ↔ _
    rw [s.recoverCache_eq.2]
    simp
  · have hcourse := h.course hop
    have hnot : ¬ Readmits s op := fun hreadmits => hop hreadmits.1
    rw [and_iff_right hnot]
    cases hs : s.stores.degraded with
    | true => exact iff_of_true (hcourse.of_givenUp hs).1 (Or.inr rfl)
    | false =>
      rw [or_iff_left Bool.false_ne_true]
      exact hcourse.givenUp_iff hs

/-! ### Without a cache -/

/-- The operation makes no call on the cache, unless it is to clear it, which is then the only call. Loading a
conversation is a single question to the remote store. -/
structure Abstains (s : Session ρ κ) (op : Operation) : Prop where
  /-- No call is made on the cache but to clear it. -/
  eq_recoverCache : ∀ call ∈ s.callsOf op, call.IsLocal → op = .recoverCache
  /-- Clearing the cache is one call. -/
  recoverCache : op = .recoverCache → ∃ reply, s.callsOf op = [.clear reply]
  /-- Loading a conversation asks for the whole of it, and for nothing else. -/
  load : ∀ conversation, op = .load conversation →
    ∃ reply, s.callsOf op = [.snapshot conversation reply]

/-- Loading a conversation synchronises it, and may read the cache after that. -/
lemma stores_load_cases (s : Session ρ κ) (conversation : String) :
    (s.load conversation).stores = (s.stores.refresh conversation).2 ∨
      (s.load conversation).stores = ((s.stores.refresh conversation).2.cachedRecords conversation).2 := by
  unfold load
  dsimp only
  split
  · split
    · exact Or.inl rfl
    · exact Or.inl rfl
  · split
    · exact Or.inr rfl
    · exact Or.inl rfl

/-- Once the cache was given up, loading a conversation asks for the whole of it. -/
lemma callsOf_load (hs : s.stores.degraded = true) (conversation : String) :
    s.callsOf (.load conversation) =
      [.snapshot conversation (s.stores.askSnapshot conversation).1] := by
  have hrefresh : (s.stores.refresh conversation).2 = (s.stores.askSnapshot conversation).2 := by
    rw [Stores.refresh, if_pos hs, Stores.snd_refreshWhole hs]
  have hread : ((s.stores.askSnapshot conversation).2.cachedRecords conversation).2 =
      (s.stores.askSnapshot conversation).2 := by
    have hasked : (s.stores.askSnapshot conversation).2.degraded = true := hs
    rw [Stores.cachedRecords, if_pos hasked]
  have hload : (s.load conversation).stores = (s.stores.askSnapshot conversation).2 := by
    rcases s.stores_load_cases conversation with h | h
    · rw [h, hrefresh]
    · rw [h, hrefresh, hread]
  refine callsOf_eq ?_
  change (s.load conversation).stores.calls = _
  rw [hload]
  rfl

/-- Once the cache was given up, every operation goes on without it. -/
theorem Sound.abstains_of_degraded (h : Sound s) (hs : s.stores.degraded = true) (op : Operation) :
    Abstains s op where
  eq_recoverCache call hcall hlocal := by
    by_contra hop
    exact ((h.course hop).of_givenUp hs).2 call hcall hlocal
  recoverCache hop := by
    subst hop
    exact ⟨_, s.callsOf_recoverCache⟩
  load conversation hop := by
    subst hop
    exact ⟨_, callsOf_load hs conversation⟩

/-! ### With a cache in use -/

/-- The operation has anything to do with the stores. -/
def NeedsStores (s : Session ρ κ) : Operation → Prop
  | .load _ | .recoverCache => True
  | .startNew _ | .select _ | .noteRequest .. => False
  | .receive id d => d.done = true ∧ s.conversation ≠ none ∧ ¬ Idle s (.receive id d)
  | .attach parent m => s.conversation ≠ none ∧ ¬ Idle s (.attach parent m)
  | .finish id => s.conversation ≠ none ∧ ¬ Idle s (.finish id)
  | .stop id => s.conversation ≠ none ∧ ¬ Idle s (.stop id)
  | .delete id => s.conversation ≠ none ∧ ¬ Idle s (.delete id)

/-- What the operation changes is a message that is there afterwards. -/
def Writes : Operation → Prop
  | .attach .. | .receive .. | .finish _ | .stop _ => True
  | .startNew _ | .load _ | .select _ | .noteRequest .. | .delete _ | .recoverCache => False

/-- How the calls of an operation begin with a cache in use. -/
inductive Opening (s : Session ρ κ) : Operation → List Call → Prop where
  /-- No call is made if there is nothing to be done with the stores. -/
  | none {op : Operation} (h : ¬ NeedsStores s op) : Opening s op []
  /-- What is changed is written to the cache. -/
  | write {op : Operation} {records : List Record} {reply : Except Failure Unit} {rest : List Call}
      (h : NeedsStores s op) (hop : Writes op) : Opening s op (.put records reply :: rest)
  /-- When a message is taken out, the records of the conversation are dropped. -/
  | delete {id conversation : String} {reply : Except Failure Unit} {rest : List Call}
      (h : NeedsStores s (.delete id)) (hopen : s.conversation = some conversation) :
      Opening s (.delete id) (.drop conversation reply :: rest)
  /-- The cache is cleared. -/
  | clear {reply : Except Failure Unit} : Opening s .recoverCache [.clear reply]
  /-- The cache is read once the outline has come. -/
  | outline {conversation : String} {o : Outline} {reply : Except Failure (List Record)}
      {rest : List Call} :
      Opening s (.load conversation)
        (.outline conversation (.ok o) :: .read conversation reply :: rest)
  /-- The records of the conversation are dropped if only the whole of it has come. -/
  | whole {conversation : String} {e : Failure} {full : Snapshot} {reply : Except Failure Unit}
      {rest : List Call} :
      Opening s (.load conversation)
        (.outline conversation (.error e) :: .snapshot conversation (.ok full) ::
          .drop conversation reply :: rest)
  /-- The cache is read if nothing has come of a conversation that is not open. -/
  | offline {conversation : String} {e e' : Failure} {reply : Except Failure (List Record)}
      (h : s.conversation ≠ some conversation) :
      Opening s (.load conversation)
        [.outline conversation (.error e), .snapshot conversation (.error e'), .read conversation reply]
  /-- There is nothing to be done if nothing has come of the open conversation. -/
  | fail {conversation : String} {e e' : Failure} (h : s.conversation = some conversation) :
      Opening s (.load conversation)
        [.outline conversation (.error e), .snapshot conversation (.error e')]

omit [Remote ρ] [Cache κ] in
/-- An operation that does nothing needs no store. -/
lemma not_needsStores_of_idle (h : Idle s op) : ¬ NeedsStores s op := by
  intro hneeds
  cases op with
  | receive => exact hneeds.2.2 h
  | attach => exact hneeds.2 h
  | finish => exact hneeds.2 h
  | stop => exact hneeds.2 h
  | delete => exact hneeds.2 h
  | load => exact h
  | recoverCache => exact h
  | _ => exact hneeds

omit [Remote ρ] [Cache κ] in
/-- Without an open conversation an operation that needs one needs no store. -/
lemma not_needsStores_of_none (hnone : s.conversation = none) (h : NeedsOpen op) : ¬ NeedsStores s op := by
  intro hneeds
  cases op with
  | receive => exact hneeds.2.1 hnone
  | attach => exact hneeds.1 hnone
  | finish => exact hneeds.1 hnone
  | stop => exact hneeds.1 hnone
  | delete => exact hneeds.1 hnone
  | _ => exact h

omit [Remote ρ] in
/-- Records are written before anything else that follows when they are stored. -/
lemma exists_put {t : Stores ρ κ} {records : List Record} (hs : s.stores.degraded = false)
    (hrecords : records ≠ []) (ht : (s.stores.store records).2.calls <+: t.calls) :
    ∃ reply rest, t.calls = s.stores.calls ++ .put records reply :: rest := by
  obtain ⟨rest, hrest⟩ := (Stores.calls_callPut_isPrefix hs hrecords).trans ht
  refine ⟨(s.stores.callPut records).1, rest, hrest.symm.trans ?_⟩
  exact List.append_assoc ..

/-- When a conversation is loaded and can be synchronised, the calls begin so with a cache in use. -/
lemma opening_of_refresh (hs : s.stores.degraded = false) {outcome : Tree × Report} {stores : Stores ρ κ}
    (h : s.stores.refresh conversation = (.ok outcome, stores)) :
    ∃ made, stores.calls = s.stores.calls ++ made ∧ Opening s (.load conversation) made := by
  rcases Stores.calls_refresh_cases hs h with
    ⟨o, read, rest, hcalls⟩ | ⟨outcome, e, full, dropped, rest, -, hcalls⟩ | ⟨e, e', herror, -⟩
  · exact ⟨_, hcalls, .outline⟩
  · exact ⟨_, hcalls, .whole⟩
  · cases herror

/-- A step begins so with a cache in use. -/
lemma Step.opening (h : Step conversation s op s') (hopen : s.conversation = some conversation)
    (hlinked : Linked s.tree.messages) (hs : s.stores.degraded = false) :
    ∃ made, s'.stores.calls = s.stores.calls ++ made ∧ Opening s op made := by
  have hsome : s.conversation ≠ none := by
    rw [hopen]
    exact Option.some_ne_none conversation
  have hnone : ¬ NeedsStores s op → ∃ made, s.stores.calls = s.stores.calls ++ made ∧ Opening s op made :=
    fun hnot => ⟨[], (List.append_nil _).symm, .none hnot⟩
  -- Two of the steps make a response complete; both begin by writing it to the cache.
  have hconcluded : ∀ {s₀ : Session ρ κ} {m : Message}, s₀.stores = s.stores → NeedsStores s op → Writes op →
      ∃ made, (s₀.concluded conversation m).stores.calls = s.stores.calls ++ made ∧ Opening s op made := by
    intro s₀ m heq hneeds hwrites
    rw [stores_concluded, heq]
    obtain ⟨reply, rest, hcalls⟩ := exists_put hs
      (List.cons_ne_nil (s₀.recordOf conversation (s₀.completed m)) [])
      (Stores.proceeds_save _ conversation (s₀.settled m).saveRequest).calls_isPrefix
    exact ⟨_, hcalls, .write hneeds hwrites⟩
  cases h with
  | idle hidle => exact hnone (not_needsStores_of_idle hidle)
  | select => exact hnone id
  | noteRequest => exact hnone id
  | recoverCache => exact ⟨_, s.recoverCache_eq.1, .clear⟩
  | @attach parent m tree hinsert =>
    have hneeds : NeedsStores s (.attach parent m) := by
      refine ⟨hsome, ?_⟩
      rintro ⟨e, herror⟩
      rw [hinsert] at herror
      cases herror
    obtain ⟨placed, hplaced, -⟩ := Tree.get?_insert_self hlinked hinsert
    have hget := (s.get?_attached tree m m.id).trans hplaced
    have hrecords := List.ne_nil_of_mem (recordOf_mem_attachedRecords hget conversation)
    obtain ⟨reply, rest, hcalls⟩ := exists_put hs hrecords List.prefix_rfl
    exact ⟨_, hcalls, .write hneeds trivial⟩
  | increment _ _ hd => exact hnone fun hneeds => Bool.false_ne_true (hd.symm.trans hneeds.1)
  | @last id d m hm hdone hd =>
    refine hconcluded rfl ⟨hd, hsome, fun hidle => ?_⟩ trivial
    rw [hidle m hm] at hdone
    cases hdone
  | @conclude id _ hop m hm hwhy =>
    have hidle : ¬ (∀ m, s.tree.get? id = some m → m.done = true ∧ s.streams.isActive m.id = false) := by
      intro hall
      obtain ⟨hdone, hactive⟩ := hall m hm
      rcases hwhy with hwhy | hwhy
      · rw [hdone] at hwhy
        cases hwhy
      · rw [hactive] at hwhy
        cases hwhy
    rcases hop with rfl | rfl
    · exact hconcluded rfl ⟨hsome, hidle⟩ trivial
    · exact hconcluded rfl ⟨hsome, hidle⟩ trivial
  | @delete id hid =>
    rw [stores_save]
    obtain ⟨rest, hrest⟩ := (Stores.calls_callDrop_isPrefix hs conversation
      ((s.tree.remove id).messages.values.map (s.recordOf conversation))).trans
        (Stores.proceeds_save _ conversation (s.cleared conversation id).notify.saveRequest).calls_isPrefix
    refine ⟨_, hrest.symm.trans (List.append_assoc ..), ?_⟩
    exact .delete ⟨hsome, fun hidle => hidle hid⟩ hopen
  | reload hrefresh => exact opening_of_refresh hs hrefresh
  | fail hrefresh =>
    rcases Stores.calls_refresh_cases hs hrefresh with
      ⟨o, read, rest, hcalls⟩ | ⟨outcome, e, full, dropped, rest, hok, -⟩ | ⟨e, e', -, -, hcalls⟩
    · exact ⟨_, hcalls, .outline⟩
    · cases hok
    · exact ⟨_, hcalls, .fail hopen⟩

/-- So does whatever else an operation can do. -/
lemma Move.opening (h : Move s op s') (hsound : Sound s) (hs : s.stores.degraded = false) :
    ∃ made, s'.stores.calls = s.stores.calls ++ made ∧ Opening s op made := by
  have hnone : ¬ NeedsStores s op → ∃ made, s.stores.calls = s.stores.calls ++ made ∧ Opening s op made :=
    fun hnot => ⟨[], (List.append_nil _).symm, .none hnot⟩
  cases h with
  | remain hopen _ hstep => exact hstep.opening hopen hsound.linked hs
  | refuse hclosed hneeds => exact hnone (not_needsStores_of_none hclosed hneeds)
  | select => exact hnone id
  | noteRequest => exact hnone id
  | recoverCache => exact ⟨_, s.recoverCache_eq.1, .clear⟩
  | startNew => exact hnone id
  | switch _ hrefresh => exact opening_of_refresh hs hrefresh
  | @switchOffline conversation helsewhere e stores hrefresh =>
    change ∃ made, (stores.cachedRecords conversation).2.calls = s.stores.calls ++ made ∧ _
    rcases Stores.calls_refresh_cases hs hrefresh with
      ⟨o, read, rest, hcalls⟩ | ⟨outcome, e, full, dropped, rest, hok, -⟩ | ⟨e, e', -, hdegraded, hcalls⟩
    · obtain ⟨more, hmore⟩ := (Stores.proceeds_cachedRecords stores conversation).calls_isPrefix
      refine ⟨.outline conversation (.ok o) :: .read conversation read :: (rest ++ more),
        hmore.symm.trans ?_, .outline⟩
      rw [hcalls, List.append_assoc]
      rfl
    · cases hok
    · have hne : s.conversation ≠ some conversation := by simpa [isElsewhere] using helsewhere
      refine ⟨[.outline conversation (.error e), .snapshot conversation (.error e'),
        .read conversation (stores.callRead conversation).1], ?_, .offline hne⟩
      rw [Stores.cachedRecords, if_neg (by simp [hdegraded])]
      change stores.calls ++ _ = _
      rw [hcalls, List.append_assoc]
      rfl

/-- With a cache in use, the calls of an operation begin so, and after a write that fails for good none of them is
made on the cache. -/
lemma Sound.opening_of_in_use (h : Sound s) (hs : s.stores.degraded = false) (op : Operation) :
    Opening s op (s.callsOf op) ∧ ∀ before failed after, s.callsOf op = before ++ failed ++ after →
      FailedWrite failed → ∀ call ∈ after, ¬ call.IsLocal := by
  obtain ⟨made, hmade, hopening⟩ := (h.move_after op).opening h hs
  rw [← callsOf_eq hmade] at hopening
  refine ⟨hopening, fun before failed after heq hfailed => ?_⟩
  by_cases hop : op = .recoverCache
  · -- Clearing the cache is a single call, and no write.
    subst hop
    obtain ⟨records, e, reply, rest, rfl, -⟩ := hfailed.exists_cons
    have hlength := congrArg List.length heq
    rw [callsOf_recoverCache] at hlength
    simp at hlength
    omega
  · exact (h.course hop).not_isLocal_of_failed heq hfailed

/-! ### Runs -/

/-- Whatever is done with a session, and whatever its stores answer, its cache is given up exactly if in some
operation a write was refused because the cache is full, and then either the cache could not be cleared or the
same write failed again, and since then the cache was not cleared at the user's wish.

Once the cache is given up, no operation makes a call on it but that one, and loading a conversation is a single
question to the remote store. While it is in use, every operation starts on it as soon as it can, until a write
fails for good. -/
theorem degraded_iff_and_conduct (remote : ρ) (cache : κ) (settings : Settings) (events : List Event) :
    let start : Session ρ κ := { stores := { remote := remote, cache := cache }, settings := settings }
    let s := start.runTimed events
    (s.stores.degraded = true ↔ ∃ before e after, events = before ++ e :: after ∧
      GivesUp ((start.runTimed before).atTime e.now) e.op ∧
      Along (fun s op => ¬ Readmits s op) (start.runTimed (before ++ [e])) after) ∧
    ∀ now op,
      (s.stores.degraded = true → Abstains (s.atTime now) op) ∧
      (s.stores.degraded = false →
        Opening (s.atTime now) op ((s.atTime now).callsOf op) ∧
        ∀ before failed after, (s.atTime now).callsOf op = before ++ failed ++ after →
          FailedWrite failed → ∀ call ∈ after, ¬ call.IsLocal) := by
  intro start s
  have hstart : Sound start := Sound.of_eq_empty rfl
  refine ⟨?_, fun now op => ⟨fun hs => ?_, fun hs => ?_⟩⟩
  · refine runTimed_iff_of_concat (fun s => s.stores.degraded = true) Bool.false_ne_true
      (fun events e => ?_) events
    rw [runTimed_concat]
    exact ((hstart.runTimed events).atTime e.now).degraded_after_iff e.op
  · exact ((hstart.runTimed events).atTime now).abstains_of_degraded hs op
  · exact ((hstart.runTimed events).atTime now).opening_of_in_use hs op

/-- A cache that is full and cannot be cleared at first is given up, and put to use again later on. -/
example :
    let cache : Scripted Memory :=
      { inner := {}, puts := [some .cacheFull], clears := [some (.cacheFailed "locked")] }
    let start : Session Remote.Archive (Scripted Memory) := { stores := { remote := ∅, cache := cache } }
    let s := start.runTimed [⟨1, .startNew "c"⟩, ⟨2, .attach none (Message.ask "Why?" "a" 1)⟩]
    s.stores.degraded = true ∧ (s.runTimed [⟨3, .recoverCache⟩]).stores.degraded = false := by
  decide +kernel

end Session

end DialogueSync.Client
