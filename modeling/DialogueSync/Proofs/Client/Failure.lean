import DialogueSync.Proofs.Client.Agreement
import DialogueSync.Proofs.Client.Session
import DialogueSync.Remote.Scripted

/-!
# Synchronising that fails

Synchronising fails only with the full fetch, and then nothing was written: a differential pass can fail no
more once the wanted bodies have come (`refreshChanged_error_cases`), and a full fetch writes only what it has
fetched. All that may have happened to the cache is that the records of the conversation were dropped, because
there were more of them than messages in the outline (`harmless_of_refresh_error`). A session that shows the
conversation keeps all it has and queues one notice (`Session.harmless_load_of_refresh_error`).
-/

namespace DialogueSync.Client

open Cache (Memory Record Scripted)

/-- Whether a call writes records or clears the cache. -/
def Call.isPutOrClear : Call → Bool
  | .put .. | .clear .. => true
  | .outline .. | .bodies .. | .snapshot .. | .save .. | .read .. | .drop .. => false

namespace Stores

variable {ρ : Type} {conversation : String}

/-! ### Steps that do no harm -/

/-- Among some calls more records of a conversation were read than its outline has messages. -/
def Outnumbered (conversation : String) (made : List Call) : Prop :=
  ∃ (o : Outline) (records : List Record), .outline conversation (.ok o) ∈ made ∧
    .read conversation (.ok records) ∈ made ∧ o.size < records.length

/-- Between two states some calls were made, none of which writes records or clears the cache. All records
are kept, or those of the conversation were dropped because they outnumbered the messages. -/
structure Harmless (conversation : String) (s s' : Stores ρ (Scripted Memory)) (made : List Call) :
    Prop where
  /-- The calls are noted. -/
  calls_eq : s'.calls = s.calls ++ made
  /-- No call writes records or clears the cache. -/
  not_isPutOrClear : ∀ call ∈ made, call.isPutOrClear = false
  /-- The records are kept, or those of the conversation are dropped for a reason. -/
  kept_or_dropped : s'.cache.inner = s.cache.inner ∨
    s'.cache.inner = s.cache.inner.drop conversation ∧ Outnumbered conversation made

namespace Harmless

variable {s s' s'' : Stores ρ (Scripted Memory)} {made made' : List Call}

lemma refl (conversation : String) (s : Stores ρ (Scripted Memory)) :
    Harmless conversation s s [] :=
  ⟨(List.append_nil _).symm, by simp, Or.inl rfl⟩

/-- One more call that leaves the cache alone does no harm. -/
lemma snoc (h : Harmless conversation s s' made) {call : Call}
    (hcall : call.isPutOrClear = false) (hcalls : s''.calls = s'.calls ++ [call])
    (hcache : s''.cache = s'.cache) : Harmless conversation s s'' (made ++ [call]) where
  calls_eq := by rw [hcalls, h.calls_eq, List.append_assoc]
  not_isPutOrClear call' hcall' := by
    rcases List.mem_append.mp hcall' with hcall' | hcall'
    · exact h.not_isPutOrClear call' hcall'
    · rw [List.mem_singleton.mp hcall', hcall]
  kept_or_dropped := by
    rw [hcache]
    refine h.kept_or_dropped.imp_right fun ⟨hdrop, o, records, houtline, hread, hlt⟩ => ?_
    exact ⟨hdrop, o, records, List.mem_append_left _ houtline, List.mem_append_left _ hread, hlt⟩

end Harmless

/-! ### Reading and dropping behind a schedule of failures -/

section Cache

variable {s : Stores ρ (Scripted Memory)}

/-- Reading leaves the records behind the schedule as they are. -/
lemma inner_callRead (s : Stores ρ (Scripted Memory)) (conversation : String) :
    (s.callRead conversation).2.cache.inner = s.cache.inner := by
  change (Scripted.pass (Scripted.due s.cache.reads) (Cache.read conversation)
    { s.cache with reads := s.cache.reads.tail }).2.inner = s.cache.inner
  rcases pass_cases (Scripted.due s.cache.reads) (Cache.read conversation)
    { s.cache with reads := s.cache.reads.tail } with ⟨e, h⟩ | h
  · rw [h]
  · rw [h]
    rfl

/-- Dropping the records of a conversation drops them or leaves all records as they are. -/
lemma inner_callDrop (s : Stores ρ (Scripted Memory)) (conversation : String) :
    (s.callDrop conversation).2.cache.inner = s.cache.inner ∨
      (s.callDrop conversation).2.cache.inner = s.cache.inner.drop conversation := by
  change (Scripted.pass (Scripted.due s.cache.drops) (Cache.drop conversation)
    { s.cache with drops := s.cache.drops.tail }).2.inner = s.cache.inner ∨
      (Scripted.pass (Scripted.due s.cache.drops) (Cache.drop conversation)
        { s.cache with drops := s.cache.drops.tail }).2.inner = s.cache.inner.drop conversation
  rcases pass_cases (Scripted.due s.cache.drops) (Cache.drop conversation)
    { s.cache with drops := s.cache.drops.tail } with ⟨e, h⟩ | h
  · rw [h]
    exact Or.inl rfl
  · rw [h]
    exact Or.inr rfl

/-- Reading makes no other call, and what was read is noted. -/
lemma exists_calls_cachedRecords (s : Stores ρ (Scripted Memory)) (conversation : String) :
    ∃ made, (s.cachedRecords conversation).2.calls = s.calls ++ made ∧
      (∀ call ∈ made, call.isPutOrClear = false) ∧
      (s.cachedRecords conversation).2.cache.inner = s.cache.inner ∧
      ∀ records, (s.cachedRecords conversation).1 = some records →
        .read conversation (.ok records) ∈ made := by
  unfold cachedRecords
  split
  · exact ⟨[], (List.append_nil _).symm, by simp, rfl, by simp⟩
  · refine ⟨[.read conversation (s.callRead conversation).1], rfl, by simp [Call.isPutOrClear],
      inner_callRead s conversation, fun records hrecords => ?_⟩
    change (s.callRead conversation).1.toOption = some records at hrecords
    cases hreply : (s.callRead conversation).1 with
    | error e =>
      rw [hreply] at hrecords
      cases hrecords
    | ok records' =>
      rw [hreply] at hrecords
      obtain rfl := Option.some.inj hrecords
      exact List.mem_singleton_self _

/-- Dropping makes no other call. -/
lemma exists_calls_discard (s : Stores ρ (Scripted Memory)) (conversation : String) :
    ∃ made, (s.discard conversation).2.calls = s.calls ++ made ∧
      (∀ call ∈ made, call.isPutOrClear = false) ∧
      ((s.discard conversation).2.cache.inner = s.cache.inner ∨
        (s.discard conversation).2.cache.inner = s.cache.inner.drop conversation) := by
  cases hs : s.degraded with
  | true =>
    rw [discard, if_pos hs]
    exact ⟨[], (List.append_nil _).symm, by simp, Or.inl rfl⟩
  | false =>
    rw [snd_discard hs]
    exact ⟨[.drop conversation (s.callDrop conversation).1], rfl, by simp [Call.isPutOrClear],
      inner_callDrop s conversation⟩

/-- There are no more ids than records. -/
lemma size_byId_le (records : List Record) : (Record.byId records).size ≤ records.length := by
  rw [← List.length_map Record.id]
  refine size_le_length fun id hid => ?_
  obtain ⟨r, hr, rfl⟩ := IdMap.mem_collect.mp hid
  exact List.mem_map_of_mem hr

/-- Taking stock does no harm after the outline has come. -/
lemma harmless_takeStock {asked : Stores ρ (Scripted Memory)} {o : Outline} {made : List Call}
    (h : Harmless conversation s asked made) (hcache : asked.cache = s.cache)
    (houtline : .outline conversation (.ok o) ∈ made) :
    ∃ made', Harmless conversation s (asked.takeStock conversation o).2 made' := by
  obtain ⟨reading, hreading, hquiet, hinner, hread⟩ := exists_calls_cachedRecords asked conversation
  obtain ⟨dropping, hdropping, hquiet', hinner'⟩ :=
    exists_calls_discard (asked.cachedRecords conversation).2 conversation
  unfold takeStock
  dsimp only
  split
  next hmore =>
    -- More records than messages can only have been read if reading has not failed.
    obtain ⟨records, hrecords⟩ : ∃ records, (asked.cachedRecords conversation).1 = some records := by
      cases hnone : (asked.cachedRecords conversation).1 with
      | some records => exact ⟨records, rfl⟩
      | none =>
        rw [hnone] at hmore
        exact absurd hmore (Nat.not_lt_zero _)
    have hlt : o.size < records.length := by
      rw [hrecords] at hmore
      exact Nat.lt_of_lt_of_le hmore (size_byId_le records)
    have hharmless : Harmless conversation s
        ((asked.cachedRecords conversation).2.discard conversation).2
        (made ++ (reading ++ dropping)) := by
      refine ⟨?_, fun call hcall => ?_, ?_⟩
      · rw [hdropping, hreading, h.calls_eq]
        simp
      · rcases List.mem_append.mp hcall with hcall | hcall
        · exact h.not_isPutOrClear call hcall
        · exact (List.mem_append.mp hcall).elim (hquiet call) (hquiet' call)
      · rw [hinner, hcache] at hinner'
        refine hinner'.imp_right fun hdrop => ⟨hdrop, o, records, ?_, ?_, hlt⟩
        · exact List.mem_append_left _ houtline
        · exact List.mem_append_right _ (List.mem_append_left _ (hread records hrecords))
    refine ⟨made ++ (reading ++ dropping), ?_⟩
    split <;> simp_all
  next =>
    refine ⟨made ++ reading, ?_, fun call hcall => ?_, Or.inl (by rw [hinner, hcache])⟩
    · rw [hreading, h.calls_eq, List.append_assoc]
    · rcases List.mem_append.mp hcall with hcall | hcall
      · exact h.not_isPutOrClear call hcall
      · exact hquiet call hcall

end Cache

/-! ### Failing passes -/

section Passes

variable [Remote ρ]

/-- A fetch that fails has asked for bodies and has left the cache alone. -/
lemma fetch_error {κ : Type} {s s' : Stores ρ κ} {o : Outline} {ids : List String} {e : Failure}
    (h : s.fetch conversation o ids = (.error e, s')) :
    ∃ reply, s'.calls = s.calls ++ [.bodies conversation ids reply] ∧ s'.cache = s.cache := by
  have hasked : ∀ {reply s'}, s.askBodies conversation ids = (reply, s') → s'.cache = s.cache := by
    intro reply s' hask
    obtain ⟨-, rfl⟩ := Prod.mk.inj hask
    rfl
  unfold fetch at h
  split at h
  · cases h
  · split at h
    next heq =>
      obtain ⟨-, rfl⟩ := Prod.mk.inj h
      exact ⟨_, calls_askBodies heq, hasked heq⟩
    next heq =>
      dsimp only at h
      split at h
      · cases h
      · obtain ⟨-, rfl⟩ := Prod.mk.inj h
        exact ⟨_, calls_askBodies heq, hasked heq⟩

/-- A differential pass fails because the outline does not come, or because the wanted bodies do not. -/
lemma refreshChanged_error_cases {κ : Type} [Cache κ] {s s' : Stores ρ κ} {e : Failure}
    (h : s.refreshChanged conversation = (.error e, s')) :
    s.askOutline conversation = (.error e, s') ∨
      ∃ o asked, s.askOutline conversation = (.ok o, asked) ∧
        (asked.takeStock conversation o).2.fetch conversation o
          (wanted o (asked.takeStock conversation o).1.held) = (.error e, s') := by
  have hfirst := h
  unfold refreshChanged at h
  split at h
  next e' asked hask =>
    obtain ⟨he, rfl⟩ := Prod.mk.inj h
    obtain rfl := Except.error.inj he
    exact Or.inl hask
  next o asked hask =>
    refine Or.inr ⟨o, asked, hask, ?_⟩
    dsimp only at h
    split at h
    next hfetch =>
      obtain ⟨he, rfl⟩ := Prod.mk.inj h
      obtain rfl := Except.error.inj he
      exact hfetch
    next fetched supplied hfetch =>
      -- Once the bodies have come the pass succeeds.
      obtain ⟨s'', ⟨p⟩⟩ := exists_pass_of_fetch hask hfetch
      rw [p.refreshChanged_eq] at hfirst
      cases hfirst

variable {s s' : Stores ρ (Scripted Memory)} {e : Failure}

/-- A differential pass that fails has done no harm. -/
lemma harmless_of_refreshChanged_error
    (h : s.refreshChanged conversation = (.error e, s')) :
    ∃ made, Harmless conversation s s' made := by
  have hasked : ∀ {reply asked}, s.askOutline conversation = (reply, asked) →
      Harmless conversation s asked [.outline conversation reply] ∧ asked.cache = s.cache := by
    intro reply asked hask
    obtain ⟨rfl, rfl⟩ := Prod.mk.inj hask
    exact ⟨(Harmless.refl conversation s).snoc rfl rfl rfl, rfl⟩
  rcases refreshChanged_error_cases h with hask | ⟨o, asked, hask, hfetch⟩
  · exact ⟨_, (hasked hask).1⟩
  · obtain ⟨hharmless, hcache⟩ := hasked hask
    obtain ⟨made, hstocked⟩ := harmless_takeStock hharmless hcache (List.mem_singleton_self _)
    obtain ⟨reply, hcalls, hcache'⟩ := fetch_error hfetch
    exact ⟨_, hstocked.snoc rfl hcalls hcache'⟩

/-- A full fetch that fails asks for the conversation and does nothing else. -/
lemma refreshWhole_error {κ : Type} [Cache κ] {s s' : Stores ρ κ} {e : Failure}
    (h : s.refreshWhole conversation = (.error e, s')) :
    s.askSnapshot conversation = (.error e, s') := by
  obtain ⟨e', hreply, hask⟩ | ⟨full, asked, -, hreply, -⟩ := refreshWhole_cases h
  · obtain rfl := Except.error.inj hreply
    exact hask
  · cases hreply

/-- Synchronising that fails has done no harm, and fails in the way in which the full fetch, its last call,
has failed. -/
lemma harmless_of_refresh_error (h : s.refresh conversation = (.error e, s')) :
    ∃ made, Harmless conversation s s' (made ++ [.snapshot conversation (.error e)]) := by
  obtain ⟨-, p, hreply⟩ | ⟨-, e', failed, hpass, hwhole⟩ | ⟨-, hwhole⟩ := refresh_cases h
  · cases hreply
  · obtain ⟨made, hharmless⟩ := harmless_of_refreshChanged_error hpass
    obtain ⟨hcalls, hcache, -⟩ := askSnapshot_frame (refreshWhole_error hwhole)
    exact ⟨made, hharmless.snoc rfl hcalls hcache⟩
  · obtain ⟨hcalls, hcache, -⟩ := askSnapshot_frame (refreshWhole_error hwhole)
    exact ⟨[], (Harmless.refl conversation s).snoc rfl hcalls hcache⟩

end Passes

end Stores

namespace Session

open Stores (Outnumbered)

variable {ρ : Type} [Remote ρ]

/-- If synchronising fails, it fails in the way in which the full fetch, its last call, has failed. Up to then
no records were written and the cache was not cleared. The records of every other conversation are as before,
and so are those of the conversation, or else they were dropped, which happens only if more of them were read
than the outline has messages. A session that shows the conversation answers with the history that it has, and
nothing about it changes but the stores and one more notice. -/
theorem harmless_load_of_refresh_error (s : Session ρ (Scripted Memory)) {conversation : String}
    {e : Failure} {stores : Stores ρ (Scripted Memory)}
    (h : s.stores.refresh conversation = (.error e, stores)) :
    (∃ made, stores.calls = s.stores.calls ++ made ∧
      made.getLast? = some (.snapshot conversation (.error e)) ∧
      (∀ call ∈ made, call.isPutOrClear = false) ∧
      (∀ other, other ≠ conversation →
        stores.cache.inner.recordsOf other = s.stores.cache.inner.recordsOf other) ∧
      (stores.cache.inner.recordsOf conversation = s.stores.cache.inner.recordsOf conversation ∨
        stores.cache.inner.recordsOf conversation = [] ∧ Outnumbered conversation made)) ∧
    (s.conversation = some conversation →
      s.perform (.load conversation) = (.history s.tree.toHistory,
        { s with
          stores := stores
          notices := s.notices ++ ["Could not refresh conversation: " ++ e.message] })) := by
  constructor
  · obtain ⟨made, hharmless⟩ := Stores.harmless_of_refresh_error h
    refine ⟨_, hharmless.calls_eq, List.getLast?_concat, hharmless.not_isPutOrClear, ?_, ?_⟩
    · intro other hother
      rcases hharmless.kept_or_dropped with hkept | ⟨hdropped, -⟩
      · rw [hkept]
      · rw [hdropped, Memory.recordsOf_drop_of_ne _ hother]
    · rcases hharmless.kept_or_dropped with hkept | ⟨hdropped, houtnumbered⟩
      · exact Or.inl (by rw [hkept])
      · refine Or.inr ⟨?_, houtnumbered⟩
        rw [hdropped, Memory.recordsOf_drop_self]
  · intro hopen
    simp only [perform, load_of_error hopen h]

/-- An exchange is shown, of which the cache holds two records. The remote store answers with an outline of
one message and can then not be reached. -/
def cutOff : Session (Remote.Scripted Remote.Archive) (Scripted Memory) where
  stores.remote.inner := ∅
  stores.remote.outlines := [.ok (Tree.ofMessages [Message.ask "Why?" "a" 1] none).outline]
  stores.remote.bodies := [.error (.unreachable "http://localhost" "refused")]
  stores.remote.snapshots := [.error (.unreachable "http://localhost" "refused")]
  stores.cache.inner := ({} : Memory).written
    [Record.own "c" (Message.ask "Why?" "a" 0) 0, Record.own "c" (Message.await "model" "b" 2) 0]
  conversation := some "c"
  tree := Tree.ofHistory Stores.exchange

/-- Without the remote store the exchange stays as it is, with one notice. -/
theorem harmless_load_cutOff :
    ∃ e stores, cutOff.stores.refresh "c" = (.error e, stores) ∧
      stores.cache.inner.recordsOf "c" = [] ∧
      cutOff.perform (.load "c") = (.history cutOff.tree.toHistory,
        { cutOff with
          stores := stores
          notices := ["Could not refresh conversation: " ++ e.message] }) := by
  have hempty : ((cutOff.stores.refresh "c").2.cache.inner.recordsOf "c").isEmpty = true := by
    decide +kernel
  cases hreply : (cutOff.stores.refresh "c").1 with
  | ok outcome =>
    have hfails : (cutOff.stores.refresh "c").1.isOk = false := by decide +kernel
    rw [hreply] at hfails
    cases hfails
  | error e =>
    have hrefresh : cutOff.stores.refresh "c" = (.error e, (cutOff.stores.refresh "c").2) :=
      Prod.ext hreply rfl
    exact ⟨e, _, hrefresh, List.isEmpty_iff.mp hempty,
      (harmless_load_of_refresh_error cutOff hrefresh).2 rfl⟩

end Session

end DialogueSync.Client
