import DialogueSync.Proofs.Client.Invariants

/-!
# Responses that are made complete

The operation that ends a response makes it complete with all the content that has come, caches it, and saves
the conversation once (`exists_consolidates`). Synchronising saves nothing, and every save that an operation
makes carries the tree that is shown after it (`StoresStep.exists_calls`). So what is shown all along a run is
carried by every save of the run (`Along.preserves_and_exists_calls`).
-/

namespace DialogueSync.Client

open Cache (Record)
open Remote (Truthful)

/-! ### Which saves are made -/

/-- All saves among some calls are of one conversation, with histories of a certain kind. -/
def Saving (conversation : String) (kind : History → Prop) (made : List Call) : Prop :=
  ∀ conversation' request reply, Call.save conversation' request reply ∈ made →
    conversation' = conversation ∧ kind request.history

namespace Saving

variable {conversation : String} {kind kind' : History → Prop} {made made' : List Call}

/-- Calls that save nothing else may be made one after the other. -/
lemma append (h : Saving conversation kind made) (h' : Saving conversation kind made') :
    Saving conversation kind (made ++ made') := by
  intro conversation' request reply hcall
  rcases List.mem_append.mp hcall with hcall | hcall
  · exact h conversation' request reply hcall
  · exact h' conversation' request reply hcall

lemma of_onCache {batch : List Record → Prop} (h : ∀ call ∈ made, call.OnCache batch) :
    Saving conversation kind made :=
  fun _ _ _ hcall => (h _ hcall).elim

lemma mono (himp : ∀ h, kind h → kind' h) (h : Saving conversation kind made) :
    Saving conversation kind' made :=
  fun conversation' request reply hcall => (h conversation' request reply hcall).imp_right (himp _)

end Saving

/-- Synchronising saves nothing. -/
lemma Stores.SyncSteps.exists_calls {ρ κ : Type} [Remote ρ] [Cache κ] {s s' : Stores ρ κ}
    {conversation : String} {batch : List Record → Prop} (h : SyncSteps conversation batch s s') (kind : History → Prop) :
    ∃ made, s'.calls = s.calls ++ made ∧ Saving conversation kind made := by
  -- One more question to the remote store is noted at the end.
  have hmore : ∀ {calls : List Call} {call : Call},
      (∀ conversation' request reply, call ≠ .save conversation' request reply) →
      (∃ made, calls = s.calls ++ made ∧ Saving conversation kind made) →
      ∃ made, calls ++ [call] = s.calls ++ made ∧ Saving conversation kind made := by
    rintro calls call hcall ⟨made, rfl, hsaving⟩
    refine ⟨made ++ [call], List.append_assoc .., hsaving.append fun conversation' request reply h => ?_⟩
    exact absurd (List.mem_singleton.mp h).symm (hcall conversation' request reply)
  induction h with
  | refl => exact ⟨[], (List.append_nil _).symm, fun _ _ _ h => by cases h⟩
  | askOutline _ ih => exact hmore (fun _ _ _ => Call.noConfusion) ih
  | askBodies _ ids ih => exact hmore (fun _ _ _ => Call.noConfusion) ih
  | askSnapshot _ ih => exact hmore (fun _ _ _ => Call.noConfusion) ih
  | cache _ hcache ih =>
    obtain ⟨made, hmade, hsaving⟩ := ih
    obtain ⟨made', hmade', honly⟩ := hcache.exists_calls
    refine ⟨made ++ made', ?_, hsaving.append (.of_onCache honly)⟩
    rw [hmade', hmade, List.append_assoc]

namespace Session

open Stores (CacheSteps Noted)

variable {ρ κ : Type} [Remote ρ] [Cache κ] {s s' : Session ρ κ} {conversation id : String}
  {m : Message} {op : Operation}

/-- A step saves nothing, or the conversation as it is shown afterwards. -/
lemma StoresStep.exists_calls {stores : Stores ρ κ} (h : StoresStep conversation stores s') :
    ∃ made, s'.stores.calls = stores.calls ++ made ∧
      Saving conversation (· = s'.tree.toHistory) made := by
  cases h with
  | syncs h =>
    rw [h]
    exact (Stores.syncSteps_refresh stores conversation).exists_calls _
  | clears degraded h =>
    rw [h]
    refine ⟨[.clear stores.callClear.1], rfl, fun conversation' request reply hcall => ?_⟩
    cases List.mem_singleton.mp hcall
  | caches h =>
    obtain ⟨made, hmade, honly⟩ := h.exists_calls
    exact ⟨made, hmade, .of_onCache honly⟩
  | saves cached h hsave =>
    obtain ⟨made, hmade, honly⟩ := h.exists_calls
    refine ⟨made ++ [.save conversation s'.saveRequest (cached.save conversation s'.saveRequest).1],
      ?_, (Saving.of_onCache honly).append fun conversation' request reply hcall => ?_⟩
    · rw [hsave, ← List.append_assoc, ← hmade]
      rfl
    · obtain ⟨rfl, rfl, rfl⟩ := Call.save.inj (List.mem_singleton.mp hcall)
      exact ⟨rfl, rfl⟩

/-- A run keeps an invariant that every step keeps, and every save along it carries a tree that is shown under
the invariant. -/
lemma Along.preserves_and_exists_calls {allowed : Session ρ κ → Operation → Prop} {inv : Session ρ κ → Prop}
    {kind : History → Prop} (htime : ∀ s now, inv s → inv (s.atTime now))
    (hstep : ∀ s op, inv s → allowed s op →
      StoresStep conversation s.stores (s.after op) ∧ inv (s.after op))
    (hkind : ∀ s, inv s → kind s.tree.toHistory) {events : List Event} (h : Along allowed s events)
    (hs : inv s) :
    inv (s.runTimed events) ∧ ∃ made, (s.runTimed events).stores.calls = s.stores.calls ++ made ∧
      Saving conversation kind made := by
  refine ⟨h.preserves htime (fun s op hs hop => (hstep s op hs hop).2) hs, ?_⟩
  induction events generalizing s with
  | nil => exact ⟨[], (List.append_nil _).symm, fun _ _ _ h => by cases h⟩
  | cons e events ih =>
    obtain ⟨hstores, hafter⟩ := hstep _ e.op (htime s e.now hs) h.1
    obtain ⟨made, hmade, hsaving⟩ := hstores.exists_calls
    obtain ⟨made', hmade', hsaving'⟩ := ih h.2 hafter
    refine ⟨made ++ made', ?_, (hsaving.mono fun history heq => ?_).append hsaving'⟩
    · rw [runTimed_cons, hmade', hmade, List.append_assoc]
      rfl
    · rw [heq]
      exact hkind _ hafter

/-! ### The end of a response -/

/-- The operation is one that ends a response. -/
def Ends (id : String) : Operation → Prop
  | .receive x d => x = id ∧ d.done = true
  | .finish x | .stop x => x = id
  | .startNew _ | .load _ | .attach .. | .select _ | .noteRequest .. | .delete _ | .recoverCache => False

/-- The content that an operation adds to a response. -/
def arriving (id : String) : Operation → String
  | .receive x d => if x = id then d.content.getD "" else ""
  | .startNew _ | .load _ | .attach .. | .select _ | .noteRequest .. | .finish _ | .stop _ | .delete _
  | .recoverCache => ""

omit [Remote ρ] [Cache κ] in
/-- An increment adds its content at the end. -/
lemma content_applyTo (d : Delta) (m : Message) : (d.applyTo m).content = m.content ++ d.content.getD "" := by
  change m.content ++ (d.content.filter fun s => !s.isEmpty).getD "" = _
  cases d.content with
  | none => rfl
  | some text =>
    rw [Option.filter_some]
    by_cases htext : text = ""
    · simp [htext]
    · simp [htext]

/-- A response is made complete: it is shown complete and not in flight, was cached, and after that the
conversation was saved as it is shown. -/
structure Consolidates (conversation : String) (stores : Stores ρ κ) (s' : Session ρ κ) (m : Message) :
    Prop where
  /-- The response is shown. -/
  get?_eq : s'.tree.get? m.id = some m
  /-- It is complete. -/
  done_eq : m.done = true
  /-- It is not in flight. -/
  isActive_eq : s'.streams.isActive m.id = false
  /-- The conversation is open. -/
  conversation_eq : s'.conversation = some conversation
  /-- It was cached, and then the conversation was saved. -/
  stores_eq : s'.stores =
    ((stores.store [Record.own conversation m stores.clock]).2.save conversation s'.saveRequest).2

/-- The completed response is written, saved, and in the tree. -/
lemma consolidates_concluded (hopen : s.conversation = some conversation)
    (hm : s.tree.get? m.id = some m) :
    Consolidates conversation s.stores (s.concluded conversation m) (s.completed m) where
  get?_eq := by
    rw [tree_concluded]
    exact Tree.get?_setBody_self (m := s.completed m) hm
  done_eq := rfl
  isActive_eq := by
    rw [streams_concluded]
    exact Streams.isActive_forget s.streams m.id
  conversation_eq := by rw [conversation_concluded, hopen]
  stores_eq := by
    rw [stores_concluded, concluded, saveRequest_save, saveRequest_cacheAll]
    rfl

/-- The operation that ends a response makes it complete, with all the content that has come. -/
theorem exists_consolidates (hopen : s.conversation = some conversation)
    (hkeyed : IdMap.Keyed Message.id s.tree.messages) (hends : Ends id op) (hidle : ¬ Idle s op) :
    ∃ m m', s.tree.get? id = some m ∧ m'.id = id ∧ m'.content = m.content ++ arriving id op ∧
      Consolidates conversation s.stores (s.after op) m' := by
  -- Finishing and stopping a response are the same.
  have hfinish : ¬ (∀ m, s.tree.get? id = some m →
        m.done = true ∧ s.streams.isActive m.id = false) →
      ∃ m m', s.tree.get? id = some m ∧ m'.id = id ∧ m'.content = m.content ++ "" ∧
        Consolidates conversation s.stores (s.finish id).2 m' := by
    intro hnot
    push Not at hnot
    obtain ⟨m, hm, hwhy⟩ := hnot
    obtain rfl : m.id = id := hkeyed id m hm
    have hwhy' : m.done = false ∨ s.streams.isActive m.id := by
      cases hdone : m.done with
      | false => exact Or.inl rfl
      | true => exact Or.inr (by simpa using hwhy hdone)
    rw [finish_of_open hopen hm hwhy']
    exact ⟨m, s.completed m, hm, rfl, (String.append_empty).symm, consolidates_concluded hopen hm⟩
  cases op with
  | receive x d =>
    obtain ⟨rfl, hd⟩ := hends
    have hnot : ¬ ∀ m, s.tree.get? x = some m → m.done = true := hidle
    push Not at hnot
    obtain ⟨m, hm, hdone⟩ := hnot
    obtain rfl : m.id = x := hkeyed x m hm
    change ∃ m₁ m', _ ∧ _ ∧ _ ∧ Consolidates conversation s.stores (s.receive m.id d).2 m'
    rw [receive_of_last hopen hkeyed hm (by simpa using hdone) hd]
    refine ⟨m, (s.applied m d).completed (d.applyTo m), hm, rfl, ?_, ?_⟩
    · rw [content_completed, content_applyTo, arriving, if_pos rfl]
    · have happlied : (s.applied m d).tree.get? (d.applyTo m).id = some (d.applyTo m) :=
        Tree.get?_setBody_self (m := d.applyTo m) hm
      exact consolidates_concluded (s := s.applied m d) hopen happlied
  | finish x =>
    obtain rfl : x = id := hends
    exact hfinish hidle
  | stop x =>
    obtain rfl : x = id := hends
    exact hfinish hidle
  | _ => exact hends.elim

omit [Remote ρ] in
/-- With a cache in use records are written when they are stored. -/
lemma exists_put_of_store {stores : Stores ρ κ} (hstores : stores.degraded = false)
    {records : List Record} (hrecords : records ≠ []) :
    ∃ reply, Noted stores (stores.store records).2 (.put records reply) := by
  have hput : Noted stores (stores.callPut records).2 (.put records (stores.callPut records).1) :=
    ⟨_, rfl, List.mem_singleton_self _⟩
  exact ⟨_, hput.mono List.prefix_rfl (Stores.calls_callPut_isPrefix hstores hrecords)⟩

namespace Consolidates

variable {stores : Stores ρ κ}

/-- Nothing is written but the response, which is written unless the cache was given up. Then the conversation
is saved as it is shown, and nothing else happens. -/
lemma exists_calls (h : Consolidates conversation stores s' m) :
    ∃ made, s'.stores.calls = stores.calls ++ made ++
        [.save conversation s'.saveRequest (Remote.save conversation s'.saveRequest stores.remote).1] ∧
      (∀ call ∈ made, call.OnCache (· = [Record.own conversation m stores.clock])) ∧
      (stores.degraded = false →
        ∃ reply, .put [Record.own conversation m stores.clock] reply ∈ made) := by
  have hsteps : CacheSteps conversation (· = [Record.own conversation m stores.clock]) stores
      (stores.store [Record.own conversation m stores.clock]).2 := (CacheSteps.refl stores).store rfl
  obtain ⟨made, hmade, honly⟩ := hsteps.exists_calls
  refine ⟨made, ?_, honly, fun hdegraded => ?_⟩
  · rw [h.stores_eq, ← hmade, ← hsteps.remote_eq]
    rfl
  · obtain ⟨reply, hput⟩ := exists_put_of_store hdegraded
      (List.cons_ne_nil (Record.own conversation m stores.clock) [])
    exact ⟨reply, hput.mem hmade⟩

/-- If the save was accepted a truthful remote store holds what is shown. -/
lemma held_eq {holds : ρ → Prop} {held : ρ → Option Tree} (h : Consolidates conversation stores s' m)
    (truth : Truthful holds held conversation) (hs : holds stores.remote)
    (haccepted : ∃ request, Noted stores s'.stores (.save conversation request (.ok ()))) :
    holds s'.stores.remote ∧
      held s'.stores.remote = some (Tree.ofHistory s'.tree.toHistory) := by
  obtain ⟨made, hmade, honly, -⟩ := h.exists_calls
  obtain ⟨request, hnoted⟩ := haccepted
  have hreply : (Remote.save conversation s'.saveRequest stores.remote).1 = .ok () := by
    have hmem := hnoted.mem (by rw [hmade, List.append_assoc])
    rcases List.mem_append.mp hmem with hmem | hmem
    · exact (honly _ hmem).elim
    · exact (Call.save.inj (List.mem_singleton.mp hmem)).2.2.symm
  have hremote : s'.stores.remote = (Remote.save conversation s'.saveRequest stores.remote).2 := by
    have hsteps : CacheSteps conversation (fun _ => True) stores
        (stores.store [Record.own conversation m stores.clock]).2 := (CacheSteps.refl stores).store trivial
    rw [h.stores_eq, ← hsteps.remote_eq]
    rfl
  obtain ⟨hholds, hsaved | ⟨⟨e, he⟩, -⟩⟩ := truth.save stores.remote s'.saveRequest hs
  · rw [hremote]
    exact ⟨hholds, hsaved⟩
  · rw [hreply] at he
    cases he

end Consolidates

end Session

end DialogueSync.Client
