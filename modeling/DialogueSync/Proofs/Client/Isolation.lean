import DialogueSync.Proofs.Client.Acceptance
import DialogueSync.Proofs.Client.Degradation
import DialogueSync.Proofs.Client.Tagging

/-!
# Conversations are kept apart

Suppose it is settled which conversation owns which ids, and that the remote store supplies for a conversation only
ids that it owns. If the same is true of what is cached at first, and of what is attached while a conversation is
open, then a session never brings anything of one conversation into another: what it shows is owned by the open
conversation, and what it caches or saves by the one under which it does so (`isolated_of_owned`). This includes
the responses in flight that are carried over when a conversation is reloaded, since they were shown in it before.

What an operation asks, reads, drops and writes is about one conversation only, whoever owns the ids: the one that
is loaded, or else the one that is open (`Move.exists_calls_named`).
-/

namespace DialogueSync.Client

open Cache (Key Memory Record Scripted)
open Stores (CacheSteps Noted OfSupplied Supplied SyncSteps)

variable {conversation id : String} {owned : String → String → Prop}

/-! ### What calls are about -/

/-- The conversations that a call names. -/
def Call.named : Call → List String
  | .outline conversation _ | .bodies conversation .. | .snapshot conversation _ | .save conversation ..
  | .read conversation _ | .drop conversation _ => [conversation]
  | .put records _ => records.map Record.conversation
  | .clear _ => []

/-- If the remote store was asked about a conversation, it owns all ids that are supplied. -/
def Call.RepliesOwned (owned : String → String → Prop) (call : Call) : Prop :=
  ∀ conversation ∈ call.asked?, ∀ id ∈ call.suppliedIds, owned conversation id

instance [∀ conversation id, Decidable (owned conversation id)] (call : Call) :
    Decidable (call.RepliesOwned owned) :=
  inferInstanceAs (Decidable (∀ conversation ∈ call.asked?, ∀ id ∈ call.suppliedIds, owned conversation id))

namespace Stores

variable {ρ κ : Type} {s s' s'' : Stores ρ κ}

/-- Between two states no other conversation is named than the one. -/
def Confined (conversation : String) (s s' : Stores ρ κ) : Prop :=
  ∃ made, s'.calls = s.calls ++ made ∧ ∀ call ∈ made, ∀ named ∈ call.named, named = conversation

namespace Confined

lemma refl (s : Stores ρ κ) : Confined conversation s s :=
  ⟨[], (List.append_nil _).symm, fun _ hcall => absurd hcall List.not_mem_nil⟩

lemma trans (h : Confined conversation s s') (h' : Confined conversation s' s'') :
    Confined conversation s s'' := by
  obtain ⟨made, hmade, hnamed⟩ := h
  obtain ⟨made', hmade', hnamed'⟩ := h'
  refine ⟨made ++ made', by rw [hmade', hmade, List.append_assoc], fun call hcall => ?_⟩
  rcases List.mem_append.mp hcall with hcall | hcall
  · exact hnamed call hcall
  · exact hnamed' call hcall

/-- One more call is noted, which names no other conversation. -/
lemma of_noted {call : Call} (hcalls : s'.calls = s.calls ++ [call])
    (hnamed : ∀ named ∈ call.named, named = conversation) : Confined conversation s s' :=
  ⟨[call], hcalls, fun _ hcall => List.mem_singleton.mp hcall ▸ hnamed⟩

/-- A call that names one conversation. -/
lemma of_noted_self {call : Call} (hcalls : s'.calls = s.calls ++ [call])
    (hnamed : call.named = [conversation]) : Confined conversation s s' :=
  of_noted hcalls fun _ h => List.mem_singleton.mp (hnamed ▸ h)

/-- Calls on the cache name only the conversation, if what is written are records of it. -/
lemma of_cacheSteps [Cache κ] {batch : List Record → Prop}
    (hbatch : ∀ records, batch records → ∀ r ∈ records, r.conversation = conversation)
    (h : CacheSteps conversation batch s s') : Confined conversation s s' := by
  induction h with
  | refl => exact refl s
  | read _ ih => exact ih.trans (of_noted_self rfl rfl)
  | put _ hwritten ih =>
    refine ih.trans (of_noted rfl fun named hnamed => ?_)
    obtain ⟨r, hr, rfl⟩ := List.mem_map.mp hnamed
    exact hbatch _ hwritten r hr
  | drop _ ih => exact ih.trans (of_noted_self rfl rfl)
  | clear _ ih => exact ih.trans (of_noted rfl fun named hnamed => absurd hnamed List.not_mem_nil)
  | giveUp _ ih => exact ih

/-- So do the calls by which it is synchronised. -/
lemma of_syncSteps [Remote ρ] [Cache κ] {batch : List Record → Prop}
    (hbatch : ∀ records, batch records → ∀ r ∈ records, r.conversation = conversation)
    (h : SyncSteps conversation batch s s') : Confined conversation s s' := by
  induction h with
  | refl => exact refl s
  | askOutline _ ih => exact ih.trans (of_noted_self rfl rfl)
  | askBodies _ _ ih => exact ih.trans (of_noted_self rfl rfl)
  | askSnapshot _ ih => exact ih.trans (of_noted_self rfl rfl)
  | cache _ hcache ih => exact ih.trans (of_cacheSteps hbatch hcache)

end Confined

/-- A load asks only about its own conversation. -/
lemma confined_refresh [Remote ρ] [Cache κ] (s : Stores ρ κ) (conversation : String) :
    Confined conversation s (s.refresh conversation).2 :=
  .of_syncSteps (fun _ hrecords r hr => (hrecords r hr).1) (syncSteps_refresh s conversation)

end Stores

namespace Session

open Stores (Confined)

section Calls

variable {ρ κ : Type} [Remote ρ] [Cache κ] {s s' : Session ρ κ} {op : Operation}

/-- The conversation with which the operation deals: the one that is loaded, or else the one that is open. -/
def DealsWith (s : Session ρ κ) : Operation → String → Prop
  | .load conversation, named => named = conversation
  | .startNew _, named | .attach .., named | .select _, named | .noteRequest .., named | .receive .., named
  | .finish _, named | .stop _, named | .delete _, named | .recoverCache, named => s.conversation = some named

omit [Remote ρ] [Cache κ] in
/-- A conversation that remains open is the one that an operation deals with. -/
lemma dealsWith_of_remains (hopen : s.conversation = some conversation) (hremains : Remains conversation op) :
    DealsWith s op conversation := by
  cases op with
  | load conversation' => exact hremains.symm
  | _ => exact hopen

/-- What a step does to the stores is about its conversation. -/
lemma StoresStep.confined {stores : Stores ρ κ} (h : StoresStep conversation stores s') :
    Confined conversation stores s'.stores := by
  have hshown : ∀ {cached}, CacheSteps conversation (OfShown conversation s') stores cached →
      Confined conversation stores cached := by
    refine fun hsteps => .of_cacheSteps (fun records hrecords r hr => ?_) hsteps
    obtain ⟨_, _, _, -, rfl⟩ := hrecords r hr
    rfl
  cases h with
  | syncs h =>
    rw [h]
    exact Stores.confined_refresh stores conversation
  | clears degraded h =>
    rw [h]
    exact .of_noted rfl fun named hnamed => absurd hnamed List.not_mem_nil
  | caches h => exact hshown h
  | saves cached h hsave =>
    rw [hsave]
    exact (hshown h).trans (.of_noted_self rfl rfl)

/-- The calls of an operation name only the conversation with which it deals. -/
lemma Move.exists_calls_named (h : Move s op s') (hkeyed : IdMap.Keyed Message.id s.tree.messages) :
    ∃ made, s'.stores.calls = s.stores.calls ++ made ∧
      ∀ call ∈ made, ∀ named ∈ call.named, DealsWith s op named := by
  have hconfined : ∀ {conversation}, Confined conversation s.stores s'.stores →
      DealsWith s op conversation → ∃ made, s'.stores.calls = s.stores.calls ++ made ∧
        ∀ call ∈ made, ∀ named ∈ call.named, DealsWith s op named := by
    rintro conversation ⟨made, hmade, hnamed⟩ hdeals
    exact ⟨made, hmade, fun call hcall named h => (hnamed call hcall named h).symm ▸ hdeals⟩
  have hnothing : s'.stores.calls = s.stores.calls → ∃ made, s'.stores.calls = s.stores.calls ++ made ∧
      ∀ call ∈ made, ∀ named ∈ call.named, DealsWith s op named :=
    fun heq => ⟨[], heq.trans (List.append_nil _).symm, fun _ hcall => absurd hcall List.not_mem_nil⟩
  cases h with
  | remain hopen hremains hstep =>
    exact hconfined (hstep.storesStep hkeyed).confined (dealsWith_of_remains hopen hremains)
  | recoverCache =>
    obtain ⟨degraded, hstores⟩ := stores_recoverCache s
    rw [hstores]
    refine ⟨_, rfl, fun call hcall named hnamed => ?_⟩
    rw [List.mem_singleton.mp hcall] at hnamed
    exact absurd hnamed List.not_mem_nil
  | @switch conversation _ tree report stores hrefresh =>
    have hsynced := Stores.confined_refresh s.stores conversation
    rw [hrefresh] at hsynced
    exact hconfined hsynced rfl
  | @switchOffline conversation _ e stores hrefresh =>
    have hsynced := Stores.confined_refresh s.stores conversation
    rw [hrefresh] at hsynced
    have hread : CacheSteps conversation (fun _ => False) stores (stores.cachedRecords conversation).2 :=
      (CacheSteps.refl stores).cachedRecords
    exact hconfined (hsynced.trans (.of_cacheSteps (fun _ hfalse => hfalse.elim) hread)) rfl
  | _ => exact hnothing rfl

end Calls

/-! ### What is owned -/

variable {ρ : Type} [Remote ρ] {s s' : Session ρ (Scripted Memory)} {op : Operation}

/-- What is attached is owned by the open conversation. -/
def AttachesOwned (owned : String → String → Prop) (s : Session ρ (Scripted Memory)) : Operation → Prop
  | .attach _ m => ∀ conversation ∈ s.conversation, owned conversation m.id
  | .startNew _ | .load _ | .select _ | .noteRequest .. | .receive .. | .finish _ | .stop _ | .delete _
  | .recoverCache => True

instance [∀ conversation id, Decidable (owned conversation id)] (s : Session ρ (Scripted Memory)) :
    (op : Operation) → Decidable (AttachesOwned owned s op)
  | .attach _ m => inferInstanceAs (Decidable (∀ conversation ∈ s.conversation, owned conversation m.id))
  | .startNew _ | .load _ | .select _ | .noteRequest .. | .receive .. | .finish _ | .stop _ | .delete _
  | .recoverCache => isTrue trivial

/-- Every record is stored under its own key, and its id is owned by the conversation under which it is stored. -/
def HoldsOwned (owned : String → String → Prop) (cache : Scripted Memory) : Prop :=
  ∀ (k : Key) (r : Record), cache.inner.records[k]? = some r → r.key = k ∧ owned r.conversation r.id

/-- The cache goes on to hold what is owned if what is written for a conversation is. -/
lemma keeps_owned (owned : String → String → Prop) (conversation : String) :
    Stores.Keeps (HoldsOwned owned) conversation fun r => r.conversation = conversation ∧
      owned r.conversation r.id :=
  (keeps_good conversation fun r => owned r.conversation r.id).scripted

/-- A cache holds only what each conversation owns if the cache behind its schedule does. -/
lemma holdsOwned_iff {cache : Scripted Memory} : HoldsOwned owned cache ↔
    cache.inner.Keyed ∧ ∀ conversation, ∀ r ∈ cache.inner.recordsOf conversation, owned conversation r.id := by
  constructor
  · refine fun h => ⟨fun k r hr => (h k r hr).1, fun conversation r hr => ?_⟩
    obtain ⟨id, hid⟩ := Memory.mem_recordsOf_iff.mp hr
    obtain ⟨hkey, hr⟩ := h _ r hid
    rwa [show r.conversation = conversation from congrArg Key.conversation hkey] at hr
  · rintro ⟨hkeyed, howned⟩ k r hr
    obtain rfl := hkeyed k r hr
    exact ⟨rfl, howned _ r (Memory.mem_recordsOf_iff.mpr ⟨r.id, hr⟩)⟩

/-- What is shown is owned by the open conversation, and what is cached by the one under which it is stored. -/
structure Isolated (owned : String → String → Prop) (s : Session ρ (Scripted Memory)) : Prop where
  /-- What is shown is owned by the open conversation. -/
  shown : ∀ id ∈ s.tree.messages, ∃ conversation, s.conversation = some conversation ∧ owned conversation id
  /-- What is cached is owned by the conversation under which it is stored. -/
  cached : HoldsOwned owned s.stores.cache

/-! ### What the stores are left with -/

section Stores

variable {stores stores' : Stores ρ (Scripted Memory)}
  (hreplies : ∀ call, Noted stores stores' call → call.RepliesOwned owned)
include hreplies

omit [Remote ρ] in
/-- What the remote store has supplied for a conversation is owned by it. -/
lemma owned_of_supplied (h : Supplied conversation stores stores' id) : owned conversation id := by
  obtain ⟨call, hnoted, hasked, hid⟩ := h
  exact hreplies call hnoted conversation hasked id hid

/-- Synchronising leaves what is cached owned, whatever comes of it. -/
lemma holdsOwned_of_refresh (hcached : HoldsOwned owned stores.cache)
    (h : (stores.refresh conversation).2 = stores') : HoldsOwned owned stores'.cache := by
  have hsteps := Stores.syncSteps_refresh stores conversation
  rw [h] at hsteps
  refine (hsteps.mono fun records hrecords r hr => ?_).keeping (keeps_owned owned conversation) hcached
  obtain ⟨rfl, hsupplied⟩ := hrecords r hr
  exact ⟨rfl, owned_of_supplied hreplies hsupplied⟩

end Stores

omit [Remote ρ] in
/-- Caching what is shown leaves what is cached owned, if what is shown is. -/
lemma holdsOwned_of_shown {stores cached : Stores ρ (Scripted Memory)} (hcached : HoldsOwned owned stores.cache)
    (hshown : ∀ id ∈ s'.tree.messages, owned conversation id)
    (hkeyed : IdMap.Keyed Message.id s'.tree.messages)
    (h : CacheSteps conversation (OfShown conversation s') stores cached) : HoldsOwned owned cached.cache := by
  refine (keeps_owned owned conversation).of_cacheSteps (h.mono fun records hrecords r hr => ?_) hcached
  obtain ⟨id, m, now, hm, rfl⟩ := hrecords r hr
  obtain rfl : m.id = id := hkeyed id m hm
  exact ⟨rfl, hshown m.id (Tree.mem_iff_exists_get?.mpr ⟨m, hm⟩)⟩

omit [Remote ρ] in
/-- What is opened from the cache is owned by its conversation, and what is cached stays owned. -/
lemma owned_of_cachedRecords {stores : Stores ρ (Scripted Memory)} (hcached : HoldsOwned owned stores.cache)
    (conversation : String) : HoldsOwned owned (stores.cachedRecords conversation).2.cache ∧
      ∀ id ∈ (Tree.ofMessages (((stores.cachedRecords conversation).1.getD []).map Record.message) none).messages,
        owned conversation id := by
  have keeps := keeps_owned owned conversation
  refine ⟨keeps.of_cacheSteps (CacheSteps.refl stores).cachedRecords hcached, fun id hid => ?_⟩
  rw [Tree.ofMessages, Tree.mem_ofIdMap_iff, IdMap.mem_collect] at hid
  obtain ⟨m, hm, rfl⟩ := hid
  obtain ⟨r, hr, rfl⟩ := List.mem_map.mp hm
  obtain ⟨rfl, howned⟩ := keeps.good_of_cachedRecords hcached hr
  exact howned

/-! ### What a session does -/

namespace Isolated

omit [Remote ρ] in
lemma atTime (h : Isolated owned s) (now : Int64) : Isolated owned (s.atTime now) :=
  ⟨h.shown, h.cached⟩

/-- A step keeps what is shown in the conversation owned by it. -/
lemma shown_of_step (h : Isolated owned s) (hsound : Sound s) (hopen : s.conversation = some conversation)
    (hstep : Step conversation s op s') (hattach : AttachesOwned owned s op)
    (hreplies : ∀ call, Noted s.stores s'.stores call → call.RepliesOwned owned) :
    ∀ id ∈ s'.tree.messages, owned conversation id := by
  intro id hid
  rcases (hstep.treeStep hsound.linked.keyed).mem_cases hsound.linked hid with
    hbefore | ⟨parent, m, rfl, rfl⟩ | ⟨tree, report, stores, rfl, hrefresh, hid⟩
  · obtain ⟨c, hc, howned⟩ := h.shown id hbefore
    rwa [Option.some.inj (hopen.symm.trans hc)]
  · exact hattach conversation hopen
  · rw [hstep.stores_load, hrefresh] at hreplies
    exact owned_of_supplied hreplies (Stores.supplied_of_refresh hrefresh hid)

/-- A step keeps a session isolated. -/
lemma step (h : Isolated owned s) (hsound : Sound s) (hopen : s.conversation = some conversation)
    (hstep : Step conversation s op s') (hkeyed : IdMap.Keyed Message.id s'.tree.messages)
    (hattach : AttachesOwned owned s op)
    (hreplies : ∀ call, Noted s.stores s'.stores call → call.RepliesOwned owned) : Isolated owned s' := by
  have hshown := h.shown_of_step hsound hopen hstep hattach hreplies
  refine ⟨fun id hid => ⟨conversation, hstep.conversation_eq.trans hopen, hshown id hid⟩, ?_⟩
  cases hstep.storesStep hsound.linked.keyed with
  | syncs hsyncs => exact holdsOwned_of_refresh hreplies h.cached hsyncs.symm
  | clears degraded hclears =>
    rw [hclears]
    exact (keeps_owned owned "").clear _ h.cached
  | caches hcaches => exact holdsOwned_of_shown h.cached hshown hkeyed hcaches
  | saves cached hcaches hsaves =>
    have hcached := holdsOwned_of_shown h.cached hshown hkeyed hcaches
    rw [hsaves]
    exact hcached

/-- An operation keeps a session isolated, whatever it is and whatever fails. -/
lemma after (h : Isolated owned s) (hsound : Sound s) (hattach : AttachesOwned owned s op)
    (hreplies : ∀ call, Noted s.stores (s.after op).stores call → call.RepliesOwned owned) :
    Isolated owned (s.after op) := by
  have hkeyed := (hsound.after op).linked.keyed
  have hmove := hsound.move_after op
  generalize s.after op = s' at hkeyed hmove hreplies
  cases hmove with
  | remain hopen _ hstep => exact h.step hsound hopen hstep hkeyed hattach hreplies
  | refuse => exact h
  | select hnone x =>
    refine ⟨fun id hid => ?_, h.cached⟩
    change id ∈ (s.tree.select x).messages at hid
    rw [Tree.messages_select] at hid
    exact h.shown id hid
  | noteRequest => exact ⟨h.shown, h.cached⟩
  | recoverCache =>
    obtain ⟨degraded, hstores⟩ := stores_recoverCache s
    refine ⟨h.shown, ?_⟩
    rw [hstores]
    exact (keeps_owned owned "").clear _ h.cached
  | startNew => exact ⟨fun id hid => absurd hid Std.ExtTreeMap.not_mem_empty, h.cached⟩
  | @switch conversation _ tree report stores hrefresh =>
    refine ⟨fun id hid => ⟨conversation, rfl, ?_⟩, ?_⟩
    · exact owned_of_supplied hreplies (Stores.supplied_of_refresh hrefresh hid)
    · exact holdsOwned_of_refresh hreplies h.cached (congrArg Prod.snd hrefresh)
  | @switchOffline conversation _ e stores hrefresh =>
    have hread : CacheSteps conversation (fun _ => True) stores (stores.cachedRecords conversation).2 :=
      (CacheSteps.refl stores).cachedRecords
    have hsynced : HoldsOwned owned stores.cache :=
      holdsOwned_of_refresh (fun call hcall => hreplies call (hcall.mono List.prefix_rfl hread.calls_isPrefix))
        h.cached (congrArg Prod.snd hrefresh)
    obtain ⟨hcached, howned⟩ := owned_of_cachedRecords hsynced conversation
    exact ⟨fun id hid => ⟨conversation, rfl, howned id hid⟩, hcached⟩

/-- Along a run a session stays isolated. -/
lemma runTimed (h : Isolated owned s) (hsound : Sound s) {events : List Event}
    (hattach : Along (AttachesOwned owned) s events)
    (hreplies : ∀ call, Noted s.stores (s.runTimed events).stores call → call.RepliesOwned owned) :
    Isolated owned (s.runTimed events) := by
  induction events generalizing s with
  | nil => exact h
  | cons e events ih =>
    have hnow := hsound.atTime e.now
    have hafter := hnow.after e.op
    obtain ⟨made, hmade, -⟩ := hnow.exists_calls_after e.op
    refine ih ((h.atTime e.now).after hnow hattach.1 fun call hcall => ?_) hafter hattach.2 fun call hcall => ?_
    · exact hreplies call (hcall.mono List.prefix_rfl (hafter.calls_isPrefix events))
    · exact hreplies call (hcall.mono ⟨made, hmade.symm⟩ List.prefix_rfl)

end Isolated

/-- Whatever is done with a session, in any order and with any number of conversations, and whatever fails: suppose
that it is settled which conversation owns which ids, that what is cached at first is owned by the conversation
under which it is stored, that what is attached is owned by the conversation that is open then, and that the remote
store supplies for a conversation only ids that it owns.

Then what is shown is owned by the open conversation, every record of the cache and every saved history by the
conversation under which it is stored or saved; and the calls of whatever is done next name only the conversation
that is loaded, or else the one that is open. If no id is owned by two conversations, then none of this is of
another one. -/
theorem isolated_of_owned (owned : String → String → Prop) (stores : Stores ρ (Scripted Memory))
    (settings : Settings) (events : List Event) (hkeyed : stores.cache.inner.Keyed)
    (hcached : ∀ conversation, ∀ r ∈ stores.cache.inner.recordsOf conversation, owned conversation r.id) :
    let start : Session ρ (Scripted Memory) := { stores := stores, settings := settings }
    let final := start.runTimed events
    Along (AttachesOwned owned) start events →
    (∀ call, Noted stores final.stores call → call.RepliesOwned owned) →
      (∀ id ∈ final.tree.messages, ∃ conversation, final.conversation = some conversation ∧
        owned conversation id) ∧
      (∀ conversation, ∀ r ∈ final.stores.cache.inner.recordsOf conversation,
        r.conversation = conversation ∧ owned conversation r.id) ∧
      (∀ conversation request reply, Noted stores final.stores (.save conversation request reply) →
        ∀ id ∈ request.history.messages, owned conversation id) ∧
      ∀ now op, ∀ call ∈ (final.atTime now).callsOf op, ∀ named ∈ call.named, DealsWith final op named := by
  intro start final hattach hreplies
  have hsound : Sound start := Sound.of_eq_empty rfl
  have hstart : Isolated owned start :=
    ⟨fun id hid => absurd hid Std.ExtTreeMap.not_mem_empty, holdsOwned_iff.mpr ⟨hkeyed, hcached⟩⟩
  have hfinal : Isolated owned final := hstart.runTimed hsound hattach hreplies
  refine ⟨hfinal.shown, fun conversation r hr => ?_, fun conversation request reply hsave id hid => ?_,
    fun now op call hcall named hnamed => ?_⟩
  · obtain ⟨x, hx⟩ := Memory.mem_recordsOf_iff.mp hr
    obtain ⟨hkey, howned⟩ := hfinal.cached _ r hx
    obtain rfl : r.conversation = conversation := congrArg Key.conversation hkey
    exact ⟨rfl, howned⟩
  · -- What is saved was shown at some point of the run, and up to there the session was isolated too.
    obtain ⟨before, later, rfl, hopen, hhistory⟩ := hsound.exists_shown_of_noted_save hsave
    have hlater : (start.runTimed before).stores.calls <+: final.stores.calls := by
      rw [show final = (start.runTimed before).runTimed later from runTimed_append start before later]
      exact (hsound.runTimed before).calls_isPrefix later
    have hbefore : Isolated owned (start.runTimed before) :=
      hstart.runTimed hsound hattach.of_append fun call hcall => hreplies call (hcall.mono List.prefix_rfl hlater)
    rw [hhistory] at hid
    obtain ⟨c, hc, howned⟩ := hbefore.shown id hid
    rwa [Option.some.inj (hopen.symm.trans hc)]
  · have hnow := (hsound.runTimed events).atTime now
    obtain ⟨made, hmade, hdeals⟩ := (hnow.move_after op).exists_calls_named hnow.linked.keyed
    rw [callsOf_eq hmade] at hcall
    exact hdeals call hcall named hnamed

/-- The ids of two conversations. -/
def OwnedByTwo (conversation id : String) : Prop :=
  conversation = "c" ∧ id ∈ ["a", "b", "e", "f"] ∨ conversation = "d" ∧ id ∈ ["x", "y"]

instance (conversation id : String) : Decidable (OwnedByTwo conversation id) :=
  inferInstanceAs (Decidable (_ ∨ _))

/-- Two conversations in a remote store that cannot be reached at first, and a message of the second one in a cache
that cannot be written to at first. -/
def unsteadyStores : Stores (Remote.Scripted Remote.Archive) (Scripted Memory) where
  remote :=
    { inner := ((∅ : Remote.Archive).store "c" Stores.exchange).insert "d"
        (Tree.ofMessages [Message.ask "Who?" "x" 1] none)
      outlines := [.error (.status 503 "")]
      snapshots := [.error (.status 503 "")] }
  cache :=
    { inner := ({} : Memory).written [Record.own "d" (Message.ask "When?" "y" 0) 0]
      puts := [some (.cacheFailed "locked")] }

/-- The second conversation is opened from the cache, then the first one is loaded. A response begins, is carried
over when the conversation is loaded again, and is stopped. -/
def switching : List Event :=
  [⟨1, .load "d"⟩, ⟨2, .load "c"⟩, ⟨3, .attach (some "b") (Message.ask "How?" "e" 3)⟩,
    ⟨4, .attach (some "e") (Message.await "model" "f" 4)⟩, ⟨5, .receive "f" { content := some "Like" }⟩,
    ⟨6, .load "c"⟩, ⟨7, .stop "f"⟩]

/-- After that the first conversation is shown with the response and with nothing of the second one, and both are in
the cache, each with its own messages. -/
theorem isolated_switching :
    let start : Session (Remote.Scripted Remote.Archive) (Scripted Memory) := { stores := unsteadyStores }
    let final := start.runTimed switching
    final.tree.messages.keys = ["a", "b", "e", "f"] ∧
      (∀ id ∈ final.tree.messages, ∃ conversation, final.conversation = some conversation ∧
        OwnedByTwo conversation id) ∧
      (final.stores.cache.inner.records.keys.map Key.conversation).dedup = ["c", "d"] ∧
      ∀ conversation, ∀ r ∈ final.stores.cache.inner.recordsOf conversation,
        r.conversation = conversation ∧ OwnedByTwo conversation r.id := by
  intro start final
  have hcached : ∀ conversation, ∀ r ∈ unsteadyStores.cache.inner.recordsOf conversation,
      OwnedByTwo conversation r.id := by
    intro conversation r hr
    obtain ⟨x, hx⟩ := Memory.mem_recordsOf_iff.mp hr
    rcases Memory.mem_or_of_getElem?_insertAll hx with ⟨hmem, hkey⟩ | ⟨-, hnone⟩
    · obtain rfl := List.mem_singleton.mp hmem
      obtain rfl : "d" = conversation := congrArg Key.conversation hkey
      decide
    · rw [Std.ExtTreeMap.getElem?_empty] at hnone
      cases hnone
  have hattach : Along (AttachesOwned OwnedByTwo) start switching := by decide +kernel
  have hreplies : ∀ call ∈ final.stores.calls, call.RepliesOwned OwnedByTwo := by decide +kernel
  have hcalls : final.stores.calls = unsteadyStores.calls ++ final.stores.calls := by
    rw [show unsteadyStores.calls = [] from rfl, List.nil_append]
  have hnoted : ∀ call, Noted unsteadyStores final.stores call → call.RepliesOwned OwnedByTwo :=
    fun call hcall => hreplies call (hcall.mem hcalls)
  obtain ⟨hshown, hkept, -⟩ := isolated_of_owned OwnedByTwo unsteadyStores {} switching
    ((Memory.keyed_clear {}).written _) hcached hattach hnoted
  dsimp only [final, start]
  exact ⟨by decide +kernel, hshown, by decide +kernel, hkept⟩

end Session

end DialogueSync.Client
