import DialogueSync.Proofs.Client.Durability
import DialogueSync.Proofs.Client.Selection
import DialogueSync.Proofs.Server.Validation

/-!
# What a session sends is accepted

Every id that a session shows was attached, or supplied by the remote store or the cache
(`Sound.exists_origin`). So if no such id is blank, then no id that is shown is; and since the tree of a session
is linked and the selected message is shown, every history that is saved is valid (`valid_of_noted_save`). The
server has no reason to refuse it.
-/

namespace DialogueSync.Client

open Cache (Memory Record)
open DialogueSync.Tree (Linked)
open Stores (Noted)

variable {ρ κ : Type} [Remote ρ] [Cache κ] {conversation id : String}

/-! ### Where ids come from -/

namespace Session

variable {s s' : Session ρ κ} {op : Operation}

/-- An id that is shown after a step was shown before, or is attached, or is among what is synchronised. -/
lemma TreeStep.mem_cases {t : Tree} (h : TreeStep conversation s op t) (hlinked : Linked s.tree.messages)
    (hid : id ∈ t.messages) : id ∈ s.tree.messages ∨ (∃ parent m, op = .attach parent m ∧ m.id = id) ∨
      ∃ tree report stores, op = .load conversation ∧
        s.stores.refresh conversation = (.ok (tree, report), stores) ∧ id ∈ tree.messages := by
  cases h with
  | keep hmessages => exact Or.inl (hmessages ▸ hid)
  | @insert parent m tree _ hinsert hmessages =>
    rw [hmessages, Tree.mem_insert_iff hlinked hinsert] at hid
    rcases hid with rfl | hid
    · exact Or.inr (Or.inl ⟨parent, m, rfl, rfl⟩)
    · exact Or.inl hid
  | setBody => exact Or.inl (Tree.mem_setBody_iff.mp hid)
  | remove x =>
    obtain ⟨m, hm⟩ := Tree.mem_iff_exists_get?.mp hid
    obtain ⟨old, hold, -⟩ := Tree.exists_of_get?_remove hlinked hm
    exact Or.inl (Tree.mem_iff_exists_get?.mpr ⟨old, hold⟩)
  | carry hrefresh =>
    obtain ⟨m, hm⟩ := Tree.mem_iff_exists_get?.mp hid
    have hsynced := (Stores.wellFormed_of_refresh hrefresh).toLinked
    obtain ⟨src, -, hsrc | ⟨hsrc, -⟩⟩ :=
      (blend_carryInFlight hlinked hsynced s.streams).exists_origin id m hm
    · exact Or.inr (Or.inr ⟨_, _, _, rfl, hrefresh, Tree.mem_iff_exists_get?.mpr ⟨src, hsrc⟩⟩)
    · exact Or.inl (Tree.mem_iff_exists_get?.mpr ⟨src, hsrc⟩)

/-- Reloading leaves the stores as synchronising does. -/
lemma Step.stores_load {conversation' : String} (h : Step conversation s (.load conversation') s') :
    s'.stores = (s.stores.refresh conversation).2 := by
  cases h with
  | idle hidle => exact hidle.elim
  | conclude hwhich => rcases hwhich with hop | hop <;> cases hop
  | reload hrefresh => exact (congrArg Prod.snd hrefresh).symm
  | fail hrefresh => exact (congrArg Prod.snd hrefresh).symm

/-- The id was shown before, or it comes with the operation: it is attached, or supplied by one of the calls. -/
def ComesBy (s s' : Session ρ κ) (op : Operation) (id : String) : Prop :=
  id ∈ s.tree.messages ∨ (∃ parent m, op = .attach parent m ∧ m.id = id) ∨
    ∃ call, Noted s.stores s'.stores call ∧ id ∈ call.suppliedIds

namespace Sound

/-- Every id that is shown after an operation was shown before, or comes with the operation. -/
lemma comesBy_after (h : Sound s) (op : Operation) (hid : id ∈ (s.after op).tree.messages) :
    ComesBy s (s.after op) op id := by
  have hmove := h.move_after op
  generalize s.after op = s' at hmove hid
  cases hmove with
  | remain hopen hremains hstep =>
    refine ((hstep.treeStep h.linked.keyed).mem_cases h.linked hid).imp_right (Or.imp_right ?_)
    rintro ⟨tree, report, stores, rfl, hrefresh, hid⟩
    rw [hstep.stores_load, hrefresh]
    obtain ⟨call, hnoted, -, hcall⟩ := Stores.supplied_of_refresh hrefresh hid
    exact ⟨call, hnoted, hcall⟩
  | refuse => exact Or.inl hid
  | select _ x => exact Or.inl (Tree.messages_select s.tree x ▸ hid)
  | noteRequest => exact Or.inl hid
  | recoverCache => exact Or.inl hid
  | startNew => exact absurd hid Std.ExtTreeMap.not_mem_empty
  | switch _ hrefresh =>
    obtain ⟨call, hnoted, -, hcall⟩ := Stores.supplied_of_refresh hrefresh hid
    exact Or.inr (Or.inr ⟨call, hnoted, hcall⟩)
  | @switchOffline conversation _ _ stores hrefresh =>
    change id ∈ (Tree.ofIdMap _ none).messages at hid
    rw [Tree.mem_ofIdMap_iff, IdMap.mem_collect] at hid
    obtain ⟨m, hm, rfl⟩ := hid
    obtain ⟨r, hr, rfl⟩ := List.mem_map.mp hm
    obtain ⟨records, hnoted, hr⟩ := Stores.exists_noted_of_cachedRecords hr
    have hsynced := (Stores.syncSteps_refresh s.stores conversation).calls_isPrefix
    rw [hrefresh] at hsynced
    exact Or.inr (Or.inr ⟨_, hnoted.mono hsynced List.prefix_rfl, List.mem_map_of_mem hr⟩)

/-- An operation only adds calls, and what it saves is the conversation that is open afterwards, as it is shown
then. -/
lemma exists_calls_after (h : Sound s) (op : Operation) :
    ∃ made, (s.after op).stores.calls = s.stores.calls ++ made ∧
      ∀ conversation request reply, Call.save conversation request reply ∈ made →
        (s.after op).conversation = some conversation ∧ request.history = (s.after op).tree.toHistory := by
  have hnothing : ∀ (t : Session ρ κ), t.stores.calls = s.stores.calls → ∃ made,
      t.stores.calls = s.stores.calls ++ made ∧ ∀ conversation request reply,
        Call.save conversation request reply ∈ made →
          t.conversation = some conversation ∧ request.history = t.tree.toHistory :=
    fun t heq => ⟨[], heq.trans (List.append_nil _).symm, fun _ _ _ hcall => by cases hcall⟩
  -- Only steps within the open conversation save; all other operations read and write the cache, or do nothing.
  have hmove := h.move_after op
  generalize s.after op = s' at hmove
  cases hmove with
  | remain hopen hremains hstep =>
    obtain ⟨made, hmade, hsaving⟩ := (hstep.storesStep h.linked.keyed).exists_calls
    refine ⟨made, hmade, fun c request reply hcall => ?_⟩
    obtain ⟨rfl, hhistory⟩ := hsaving c request reply hcall
    exact ⟨hstep.conversation_eq.trans hopen, hhistory⟩
  | recoverCache =>
    obtain ⟨degraded, hstores⟩ := stores_recoverCache s
    rw [hstores]
    exact ⟨_, rfl, fun _ _ _ hcall => by cases List.mem_singleton.mp hcall⟩
  | @switch conversation _ _ _ _ hrefresh =>
    obtain ⟨made, hmade, hsaving⟩ :=
      (Stores.syncSteps_refresh s.stores conversation).exists_calls fun _ => False
    rw [hrefresh] at hmade
    exact ⟨made, hmade, fun _ request reply hcall => (hsaving _ request reply hcall).2.elim⟩
  | @switchOffline conversation _ _ stores hrefresh =>
    obtain ⟨made, hmade, hsaving⟩ :=
      (Stores.syncSteps_refresh s.stores conversation).exists_calls fun _ => False
    have hread : Stores.CacheSteps conversation (fun _ => True) stores
        (stores.cachedRecords conversation).2 := (Stores.CacheSteps.refl stores).cachedRecords
    obtain ⟨made', hmade', honly⟩ := hread.exists_calls
    rw [hrefresh] at hmade
    refine ⟨made ++ made', ?_, fun c request reply hcall => ?_⟩
    · change (stores.cachedRecords conversation).2.calls = _
      rw [hmade', hmade, List.append_assoc]
    · exact (hsaving.append (.of_onCache honly) c request reply hcall).2.elim
  | _ => exact hnothing _ rfl

/-- Along a run calls are only added. -/
lemma calls_isPrefix (h : Sound s) (events : List Event) :
    s.stores.calls <+: (s.runTimed events).stores.calls := by
  induction events generalizing s with
  | nil => exact List.prefix_rfl
  | cons e events ih =>
    have hnow := h.atTime e.now
    obtain ⟨made, hmade, -⟩ := hnow.exists_calls_after e.op
    exact List.IsPrefix.trans ⟨made, hmade.symm⟩ (ih (hnow.after e.op))

/-- Every id that is shown after a run was shown before, or attached, or supplied by one of the calls. -/
lemma exists_origin (h : Sound s) (events : List Event) (hid : id ∈ (s.runTimed events).tree.messages) :
    id ∈ s.tree.messages ∨ (∃ e ∈ events, ∃ parent m, e.op = .attach parent m ∧ m.id = id) ∨
      ∃ call, Noted s.stores (s.runTimed events).stores call ∧ id ∈ call.suppliedIds := by
  induction events generalizing s with
  | nil => exact Or.inl hid
  | cons e events ih =>
    have hnow := h.atTime e.now
    have hafter := hnow.after e.op
    obtain ⟨made, hmade, -⟩ := hnow.exists_calls_after e.op
    rcases ih hafter hid with hshown | ⟨e', he', hattach⟩ | ⟨call, hnoted, hsupplied⟩
    · rcases hnow.comesBy_after e.op hshown with hbefore | hattach | ⟨call, hnoted, hsupplied⟩
      · exact Or.inl hbefore
      · exact Or.inr (Or.inl ⟨e, List.mem_cons_self, hattach⟩)
      · exact Or.inr (Or.inr ⟨call, hnoted.mono List.prefix_rfl (hafter.calls_isPrefix events), hsupplied⟩)
    · exact Or.inr (Or.inl ⟨e', List.mem_cons_of_mem e he', hattach⟩)
    · exact Or.inr (Or.inr ⟨call, hnoted.mono ⟨made, hmade.symm⟩ List.prefix_rfl, hsupplied⟩)

/-- What is saved along a run is shown at some point of it, where its conversation is open. -/
lemma exists_shown_of_noted_save (h : Sound s) {events : List Event} {request : SaveRequest}
    {reply : Except Failure Unit}
    (hsave : Noted s.stores (s.runTimed events).stores (.save conversation request reply)) :
    ∃ before after, events = before ++ after ∧ (s.runTimed before).conversation = some conversation ∧
      request.history = (s.runTimed before).tree.toHistory := by
  induction events generalizing s with
  | nil =>
    have hnil := hsave.mem (List.append_nil _).symm
    cases hnil
  | cons e events ih =>
    have hnow := h.atTime e.now
    have hafter := hnow.after e.op
    obtain ⟨made, hmade, hsaving⟩ := hnow.exists_calls_after e.op
    obtain ⟨made', hmade'⟩ := hafter.calls_isPrefix events
    have hall : (s.runTimed (e :: events)).stores.calls = s.stores.calls ++ (made ++ made') := by
      rw [runTimed_cons, ← hmade', hmade, List.append_assoc]
      rfl
    rcases List.mem_append.mp (hsave.mem hall) with hcall | hcall
    · exact ⟨[e], events, rfl, hsaving conversation request reply hcall⟩
    · obtain ⟨before, after, rfl, hshown⟩ := ih hafter ⟨made', hmade'.symm, hcall⟩
      exact ⟨e :: before, after, rfl, hshown⟩

end Sound

/-- What is shown makes a valid history if the tree is linked, the selected message is shown and no id is
blank. -/
lemma valid_toHistory {t : Tree} (hlinked : Linked t.messages) (hshows : ShowsSelected t)
    (hblank : ∀ id ∈ t.messages, ¬ Text.isBlank id) : Server.Valid t.toHistory :=
  ⟨hlinked.keyed, hblank, hshows, hlinked.acyclic⟩

/-- Whatever is done with a session, and whatever the remote store and the cache answer: if no id is blank that
is attached or supplied, then the server accepts every history that is saved, and saving it under an id that is
not blank is never refused. -/
theorem accepted_of_noted_save (stores : Stores ρ κ) (settings : Settings) (events : List Event)
    {request : SaveRequest} {reply : Except Failure Unit} :
    let start : Session ρ κ := { stores := stores, settings := settings }
    let final := start.runTimed events
    (∀ e ∈ events, ∀ parent m, e.op = .attach parent m → ¬ Text.isBlank m.id) →
    (∀ call, Noted stores final.stores call → ∀ id ∈ call.suppliedIds, ¬ Text.isBlank id) →
    Noted stores final.stores (.save conversation request reply) →
      Server.validate request.history = .ok () ∧
      ∀ (db : Server.Database) (target : String) (now : Int64) (e : Failure), ¬ Text.isBlank target →
        db.save target request now = .error e → e.isRefusal = false := by
  intro start final hattached hsupplied hsave
  have hsound : Sound start := Sound.of_eq_empty rfl
  obtain ⟨before, after, rfl, -, hshown⟩ := hsound.exists_shown_of_noted_save hsave
  have hbefore := hsound.runTimed before
  have hlater : (start.runTimed before).stores.calls <+: final.stores.calls := by
    rw [show final = (start.runTimed before).runTimed after from runTimed_append start before after]
    exact hbefore.calls_isPrefix after
  have hblank : ∀ id ∈ (start.runTimed before).tree.messages, ¬ Text.isBlank id := by
    intro id hid
    rcases hsound.exists_origin before hid with hnone | ⟨e, he, parent, m, hop, rfl⟩ | ⟨call, hnoted, hid⟩
    · exact absurd hnone Std.ExtTreeMap.not_mem_empty
    · exact hattached e (List.mem_append_left after he) parent m hop
    · exact hsupplied call (hnoted.mono List.prefix_rfl hlater) id hid
  have hvalid : Server.Valid request.history := by
    rw [hshown]
    exact valid_toHistory hbefore.linked
      (hsound.showsSelected_runTimed (fun id hid => by cases hid) before) hblank
  refine ⟨Server.validate_eq_ok_iff.mpr hvalid, fun db target now e htarget herror => ?_⟩
  rw [← Bool.not_eq_true, Server.Database.isRefusal_iff_of_save herror]
  exact not_or.mpr ⟨htarget, not_not.mpr hvalid⟩

/-- A question is loaded, and a response to it attached and made complete: both are saved, and accepted. -/
theorem accepted_answer :
    let stores : Stores Remote.Archive Memory :=
      { remote := (∅ : Remote.Archive).insert "c" (Tree.ofMessages [Message.ask "Why?" "a" 1] none)
        cache := {} }
    let final := Session.runTimed { stores := stores }
      [⟨1, .load "c"⟩, ⟨2, .attach (some "a") (Message.await "model" "b" 2)⟩, ⟨3, .finish "b"⟩]
    ∃ request reply, Noted stores final.stores (.save "c" request reply) ∧
      request.history.messages.keys = ["a", "b"] ∧ Server.validate request.history = .ok () := by
  intro stores final
  have hcalls : final.stores.calls = stores.calls ++ final.stores.calls := rfl
  have hsaved : final.stores.calls.filterMap saved = [(["a", "b"], true)] := by decide +kernel
  have hblank : (final.stores.calls.all fun call =>
      call.suppliedIds.all fun id => !Text.isBlank id) = true := by decide +kernel
  have hwhere : (final.stores.calls.all fun call =>
      match call with
      | .save x .. => x = "c"
      | _ => true) = true := by decide +kernel
  obtain ⟨call, hcall, heq⟩ := List.mem_filterMap.mp (hsaved ▸ List.mem_singleton_self (["a", "b"], true))
  cases call with
  | save x request reply =>
    obtain rfl : x = "c" := by simpa using List.all_eq_true.mp hwhere _ hcall
    have hnoted : Noted stores final.stores (.save "c" request reply) := ⟨_, hcalls, hcall⟩
    refine ⟨request, reply, hnoted, (Prod.mk.inj (Option.some.inj heq)).1, ?_⟩
    refine (accepted_of_noted_save stores {} _ (fun e he parent m hop => ?_)
      (fun call hnoted id hid => ?_) hnoted).1
    · simp only [List.mem_cons, List.not_mem_nil, or_false] at he
      rcases he with rfl | rfl | rfl
      · cases hop
      · obtain ⟨-, rfl⟩ := Operation.attach.inj hop
        decide
      · cases hop
    · have hall := List.all_eq_true.mp (List.all_eq_true.mp hblank call (hnoted.mem hcalls)) id hid
      simpa using hall
  | _ => cases heq

end Session

end DialogueSync.Client
