import DialogueSync.Proofs.Client.Consolidation
import DialogueSync.Proofs.Client.Soundness
import DialogueSync.Remote.Archive

/-!
# What becomes of complete responses

A response that was made complete is carried by every later save as long as it is shown as it is. It is so as
long as no reload succeeds (`Along.carries_of_failsToLoad`). A reload shows what the remote store holds, so it
takes away a response that has never been saved; but if the save at the end of the response was accepted it
does not (`Along.carries_of_secured`), unless the cache holds an older copy that passes for the response.
-/

namespace DialogueSync.Client.Session

open Cache (Memory Record Scripted)
open DialogueSync.Tree (Linked isWithin)
open Message (SameBody)
open Remote (Truthful)
open Stores (CacheSteps Hereditary Keeps Noted Throughout)

variable {ρ κ : Type} [Remote ρ] [Cache κ] {s s' : Session ρ κ} {conversation id content : String}
  {m : Message} {op : Operation}

/-! ### Complete responses that are shown -/

/-- The operation stays with the conversation, and neither attaches a message anew nor takes it out. -/
structure Retains (conversation id : String) (s : Session ρ κ) (op : Operation) : Prop where
  /-- It stays with the conversation. -/
  remains : Remains conversation op
  /-- It does not attach the message. -/
  attach_ne : ∀ parent m, op = .attach parent m → m.id ≠ id
  /-- It does not take the message out. -/
  not_isWithin : ∀ x, op = .delete x → ¬ isWithin s.tree.messages id x

/-- If the operation is a load, it fails. -/
def FailsToLoad (s : Session ρ κ) (op : Operation) : Prop :=
  ∀ conversation, op = .load conversation → ∃ e, (s.stores.refresh conversation).1 = .error e

/-- A message with this id is complete, with this content. -/
def CompleteWith (id content : String) (m : Message) : Prop :=
  m.id = id → m.done = true ∧ m.content = content

/-- The history has a message with this id, complete and with this content. -/
def Carries (id content : String) (h : History) : Prop :=
  ∃ m, h.messages[id]? = some m ∧ m.done = true ∧ m.content = content

/-- The session shows a response complete. -/
structure ShowsComplete (conversation id content : String) (s : Session ρ κ) : Prop where
  /-- The conversation is open. -/
  open_eq : s.conversation = some conversation
  /-- The response is complete where it is shown. -/
  shown : Throughout (CompleteWith id content) s.tree
  /-- The response is shown. -/
  mem : id ∈ s.tree.messages

omit [Remote ρ] [Cache κ] in
/-- What is shown complete is carried by what is saved. -/
lemma ShowsComplete.carries (h : ShowsComplete conversation id content s) :
    Carries id content s.tree.toHistory := by
  obtain ⟨m, hm⟩ := Tree.mem_iff_exists_get?.mp h.mem
  exact ⟨m, hm, h.shown.of_get? id m hm (h.shown.linked.keyed id m hm)⟩

omit [Remote ρ] [Cache κ] in
/-- Nothing changes the content of a complete response that does not attach it anew. -/
lemma ShowsComplete.brings (h : ShowsComplete conversation id content s)
    (hattach : ∀ parent m, op = .attach parent m → m.id ≠ id) : Brings (CompleteWith id content) s op where
  of_attach parent m hop hid := absurd hid (hattach parent m hop)
  of_rewrites m m' hm hrewrites hid := by
    have hcomplete := h.shown.of_get? m.id m hm (hrewrites.samePlace.id_eq ▸ hid)
    cases op with
    | receive x d =>
      obtain ⟨-, hdone, -⟩ := hrewrites
      rw [hcomplete.1] at hdone
      cases hdone
    | finish x =>
      obtain ⟨-, -, rfl⟩ := hrewrites
      exact ⟨rfl, hcomplete.2⟩
    | stop x =>
      obtain ⟨-, -, rfl⟩ := hrewrites
      exact ⟨rfl, hcomplete.2⟩
    | _ => exact hrewrites.elim

/-- As long as no reload succeeds a complete response goes on to be shown. -/
lemma ShowsComplete.step_of_failsToLoad (h : ShowsComplete conversation id content s)
    (hretains : Retains conversation id s op) (hload : FailsToLoad s op) :
    StoresStep conversation s.stores (s.after op) ∧
      ShowsComplete conversation id content (s.after op) := by
  have hkeyed := h.shown.linked.keyed
  have hstep := step_after h.open_eq hkeyed hretains.remains
  have hfails : ∀ tree report stores, op = .load conversation →
      s.stores.refresh conversation ≠ (.ok (tree, report), stores) := by
    intro tree report stores hop hrefresh
    obtain ⟨e, he⟩ := hload conversation hop
    rw [hrefresh] at he
    cases he
  refine ⟨hstep.storesStep hkeyed, hstep.conversation_eq.trans h.open_eq, ?_, ?_⟩
  · refine (hstep.treeStep hkeyed).throughout h.shown (fun m m' hsame hm hid => ?_)
      (h.brings hretains.attach_ne) fun tree report stores hop hrefresh => ?_
    · rw [← hsame.done_eq, ← hsame.content_eq]
      exact hm (hsame.id_eq.trans hid)
    · exact absurd hrefresh (hfails tree report stores hop)
  · refine (hstep.treeStep hkeyed).mem h.shown.linked h.mem hretains.not_isWithin ?_
    intro tree report stores hop hrefresh
    exact absurd hrefresh (hfails tree report stores hop)

/-- What a response that was just made complete amounts to. -/
lemma Consolidates.showsComplete {stores : Stores ρ κ} (h : Consolidates conversation stores s' m)
    (hlinked : Linked s'.tree.messages) : ShowsComplete conversation m.id m.content s' where
  open_eq := h.conversation_eq
  shown := ⟨hlinked, fun id m' hm' hid => by
    obtain rfl : m'.id = id := hlinked.keyed id m' hm'
    rw [hid] at hm'
    obtain rfl := Option.some.inj (h.get?_eq.symm.trans hm')
    exact ⟨h.done_eq, rfl⟩⟩
  mem := Tree.mem_iff_exists_get?.mpr ⟨m, h.get?_eq⟩

/-- As long as no reload succeeds a complete response is shown along a run, and every save carries it. -/
theorem Along.carries_of_failsToLoad {events : List Event}
    (h : Along (fun s op => Retains conversation id s op ∧ FailsToLoad s op) s events)
    (hs : ShowsComplete conversation id content s) :
    ShowsComplete conversation id content (s.runTimed events) ∧
      ∃ made, (s.runTimed events).stores.calls = s.stores.calls ++ made ∧
        Saving conversation (Carries id content) made := by
  have htime : ∀ (s : Session ρ κ) now, ShowsComplete conversation id content s →
      ShowsComplete conversation id content (s.atTime now) := fun s _ hs => ⟨hs.open_eq, hs.shown, hs.mem⟩
  have hstep : ∀ (s : Session ρ κ) op, ShowsComplete conversation id content s →
      Retains conversation id s op ∧ FailsToLoad s op →
      StoresStep conversation s.stores (s.after op) ∧
        ShowsComplete conversation id content (s.after op) :=
    fun s op hs hop => hs.step_of_failsToLoad hop.1 hop.2
  exact h.preserves_and_exists_calls htime hstep (fun s hs => hs.carries) hs

/-! ### Complete responses that the remote store holds -/

/-- The operation is an increment of a response, or ends it. -/
def Concerns (id : String) : Operation → Prop
  | .receive x _ | .finish x | .stop x => x = id
  | .startNew _ | .load _ | .attach .. | .select _ | .noteRequest .. | .delete _ | .recoverCache => False

/-- Nothing that comes for a complete response has an effect, unless it was noted that it was requested
again. -/
lemma after_eq_self (hopen : s.conversation = some conversation) (hm : s.tree.get? id = some m)
    (hdone : m.done = true) (hactive : s.streams.isActive m.id = false) (hop : Concerns id op) :
    s.after op = s := by
  cases op with
  | receive x d =>
    obtain rfl : x = id := hop
    change (s.receive x d).2 = s
    rw [receive_of_done hm hdone]
  | finish x =>
    obtain rfl : x = id := hop
    change (s.finish x).2 = s
    rw [finish_of_done hopen hm hdone hactive]
  | stop x =>
    obtain rfl : x = id := hop
    change (s.finish x).2 = s
    rw [finish_of_done hopen hm hdone hactive]
  | _ => exact hop.elim

omit [Remote ρ] [Cache κ] in
/-- An operation that retains the message spares it, or brings it on. -/
lemma Retains.spares_or_concerns (h : Retains conversation id s op) : Spares id s op ∨ Concerns id op := by
  cases op with
  | receive x d => exact (ne_or_eq x id)
  | finish x => exact (ne_or_eq x id)
  | stop x => exact (ne_or_eq x id)
  | attach parent m => exact Or.inl (h.attach_ne parent m rfl)
  | delete x => exact Or.inl (h.not_isWithin x rfl)
  | _ => exact Or.inl trivial

/-- A complete response does not get back in flight unless it is noted again that it was requested. -/
lemma isActive_after (hopen : s.conversation = some conversation) (hlinked : Linked s.tree.messages)
    (hm : s.tree.get? id = some m) (hdone : m.done = true) (hactive : s.streams.isActive id = false)
    (hretains : Retains conversation id s op) (hnote : ∀ sentAt, op ≠ .noteRequest id sentAt) :
    (s.after op).streams.isActive id = false := by
  rcases hretains.spares_or_concerns with hspares | hconcerns
  · have hstep := step_after hopen hlinked.keyed hretains.remains
    rw [hstep.isActive_eq hlinked hspares hnote, hactive]
  · rw [after_eq_self hopen hm hdone ((hlinked.keyed id m hm).symm ▸ hactive) hconcerns, hactive]

/-- A message with the id of a message has its body. -/
def AgreesWith (m m' : Message) : Prop :=
  m'.id = m.id → SameBody m m'

/-- The record does not pass for a message unless it has its body. -/
def Genuine (m : Message) (r : Record) : Prop :=
  r.id = m.id → r.fingerprint = m.fingerprint → SameBody m r.message

instance (m : Message) (r : Record) : Decidable (Genuine m r) :=
  inferInstanceAs (Decidable (r.id = m.id → r.fingerprint = m.fingerprint → SameBody m r.message))

/-- As long as nothing else passes for a message, only its own body is handed on under its id. -/
lemma hereditary_agreesWith (conversation : String) (m : Message) :
    Hereditary conversation (Genuine m) (AgreesWith m) where
  of_sameBody _ _ hsame h hid := (h (hsame.id_eq.trans hid)).trans hsame
  of_good r m' hr hm' hid hcur hself := by
    have hsame : SameBody m m' := hm' (hid.trans hself)
    exact hr hself (hcur.trans hsame.fingerprint_eq.symm)
  good_of _ _ _ h _ _ hid _ := h hid

variable {holds : ρ → Prop} {held : ρ → Option Tree} {keeping : κ → Prop}

/-- The session shows a complete response that the remote store holds too, and nothing else passes for it. -/
structure Secured (holds : ρ → Prop) (held : ρ → Option Tree) (keeping : κ → Prop)
    (conversation : String) (m : Message) (s : Session ρ κ) : Prop
    extends Pervades holds held keeping conversation (AgreesWith m) s where
  /-- The response is shown. -/
  mem : m.id ∈ s.tree.messages
  /-- The remote store holds it. -/
  mem_held : ∃ t, held s.stores.remote = some t ∧ m.id ∈ t.messages
  /-- It is not in flight. -/
  isActive_eq : s.streams.isActive m.id = false

namespace Secured

omit [Remote ρ] [Cache κ] in
/-- The tree has the body of a secured message. -/
lemma exists_sameBody (h : Secured holds held keeping conversation m s) :
    ∃ m', s.tree.get? m.id = some m' ∧ SameBody m m' := by
  obtain ⟨m', hm'⟩ := Tree.mem_iff_exists_get?.mp h.mem
  exact ⟨m', hm', h.shown.of_get? m.id m' hm' (h.shown.linked.keyed m.id m' hm')⟩

omit [Remote ρ] [Cache κ] in
/-- So what is saved carries it. -/
lemma carries (h : Secured holds held keeping conversation m s) (hdone : m.done = true) :
    Carries m.id m.content s.tree.toHistory := by
  obtain ⟨m', hm', hsame⟩ := h.exists_sameBody
  exact ⟨m', hm', hsame.done_eq ▸ hdone, hsame.content_eq.symm⟩

omit [Remote ρ] [Cache κ] in
/-- Nothing changes the body of the response. -/
lemma brings (h : Secured holds held keeping conversation m s) (hdone : m.done = true)
    (hattach : ∀ parent m', op = .attach parent m' → m'.id ≠ m.id) : Brings (AgreesWith m) s op where
  of_attach parent m' hop hid := absurd hid (hattach parent m' hop)
  of_rewrites old new hold hrewrites hid := by
    have hid' : old.id = m.id := hrewrites.samePlace.id_eq ▸ hid
    have hopen : old.done = false ∨ s.streams.isActive old.id := by
      cases op with
      | receive x d => exact Or.inl hrewrites.2.1
      | finish x => exact hrewrites.2.1
      | stop x => exact hrewrites.2.1
      | _ => exact hrewrites.elim
    have hsame := h.shown.of_get? old.id old hold hid'
    rw [← hsame.done_eq, hdone, hid', h.isActive_eq] at hopen
    simp at hopen

/-- A response that the remote store holds goes on to be shown, whether reloads succeed or not. -/
lemma step (h : Secured holds held keeping conversation m s) (truth : Truthful holds held conversation)
    (keeps : Keeps keeping conversation (Genuine m)) (hdone : m.done = true)
    (hretains : Retains conversation m.id s op) (hnote : ∀ sentAt, op ≠ .noteRequest m.id sentAt) :
    StoresStep conversation s.stores (s.after op) ∧
      Secured holds held keeping conversation m (s.after op) := by
  have hP := hereditary_agreesWith conversation m
  have hlinked := h.shown.linked
  have hstep := step_after h.open_eq hlinked.keyed hretains.remains
  have hstores := hstep.storesStep hlinked.keyed
  have hpervades := h.toPervades.step truth keeps hP hstep (h.brings hdone hretains.attach_ne)
  have hmem : m.id ∈ (s.after op).tree.messages := by
    refine (hstep.treeStep hlinked.keyed).mem hlinked h.mem hretains.not_isWithin ?_
    intro tree report stores _ hrefresh
    obtain ⟨t, ht, htree⟩ := h.toPervades.of_refresh truth keeps hP hrefresh
    obtain ⟨t', ht', hid⟩ := h.mem_held
    obtain rfl := Option.some.inj (ht.symm.trans ht')
    exact ⟨htree.linked, (htree.mem_iff m.id).mpr hid⟩
  refine ⟨hstores, hpervades, hmem, ?_, ?_⟩
  · obtain ⟨-, hheld | hheld⟩ := hstores.held_cases truth h.holds_remote
    · rw [hheld]
      exact h.mem_held
    · refine ⟨_, hheld, ?_⟩
      rw [hpervades.shown.linked.messages_ofHistory]
      exact hmem
  · obtain ⟨m', hm', hsame⟩ := h.exists_sameBody
    exact isActive_after h.open_eq hlinked hm' (hsame.done_eq ▸ hdone) h.isActive_eq hretains hnote

end Secured

/-- A response that was just made complete is secured if the save was accepted, and nothing else that is
cached passes for it. -/
lemma Consolidates.secured {stores : Stores ρ κ} (h : Consolidates conversation stores s' m)
    (hlinked : Linked s'.tree.messages) (truth : Truthful holds held conversation)
    (keeps : Keeps keeping conversation (Genuine m)) (hs : holds stores.remote)
    (hcache : keeping stores.cache)
    (haccepted : ∃ request, Noted stores s'.stores (.save conversation request (.ok ()))) :
    Secured holds held keeping conversation m s' := by
  obtain ⟨hholds, hheld⟩ := h.held_eq truth hs haccepted
  have hmessages := hlinked.messages_ofHistory
  have hmem : m.id ∈ s'.tree.messages := Tree.mem_iff_exists_get?.mpr ⟨m, h.get?_eq⟩
  have hshown : Throughout (AgreesWith m) s'.tree := by
    refine ⟨hlinked, fun id m' hm' hid => ?_⟩
    obtain rfl : m'.id = id := hlinked.keyed id m' hm'
    rw [hid] at hm'
    obtain rfl := Option.some.inj (h.get?_eq.symm.trans hm')
    exact SameBody.refl m
  refine ⟨⟨hholds, h.conversation_eq, hshown, fun t ht => ?_, ?_⟩, hmem, ⟨_, hheld, ?_⟩, h.isActive_eq⟩
  · obtain rfl := Option.some.inj (hheld.symm.trans ht)
    exact hshown.congr hmessages
  · rw [h.stores_eq]
    change keeping (stores.store [Record.own conversation m stores.clock]).2.cache
    refine keeps.of_cacheSteps ((CacheSteps.refl stores).store fun r hr => ?_) hcache
    rw [List.mem_singleton.mp hr]
    exact fun _ _ => SameBody.refl m
  · rw [hmessages]
    exact hmem

/-- A response that the remote store holds is shown along a run, and every save carries it. -/
theorem Along.carries_of_secured {events : List Event} (truth : Truthful holds held conversation)
    (keeps : Keeps keeping conversation (Genuine m)) (hdone : m.done = true)
    (h : Along (fun s op => Retains conversation m.id s op ∧ ∀ sentAt, op ≠ .noteRequest m.id sentAt)
      s events)
    (hs : Secured holds held keeping conversation m s) :
    Secured holds held keeping conversation m (s.runTimed events) ∧
      ∃ made, (s.runTimed events).stores.calls = s.stores.calls ++ made ∧
        Saving conversation (Carries m.id m.content) made := by
  have htime : ∀ (s : Session ρ κ) now, Secured holds held keeping conversation m s →
      Secured holds held keeping conversation m (s.atTime now) :=
    fun s now hs => ⟨hs.toPervades.atTime now, hs.mem, hs.mem_held, hs.isActive_eq⟩
  have hstep : ∀ (s : Session ρ κ) op, Secured holds held keeping conversation m s →
      (Retains conversation m.id s op ∧ ∀ sentAt, op ≠ .noteRequest m.id sentAt) →
      StoresStep conversation s.stores (s.after op) ∧
        Secured holds held keeping conversation m (s.after op) :=
    fun s op hs hop => hs.step truth keeps hdone hop.1 hop.2
  exact h.preserves_and_exists_calls htime hstep (fun s hs => hs.carries hdone) hs

/-! ### Saves after the end of a response -/

section Memory

variable {s s' : Session ρ (Scripted Memory)}

/-- A run that stays with the conversation only adds to the calls that were made. -/
lemma Along.exists_made {events : List Event} (h : Along (Retains conversation id) s events) (hs : Sound s)
    (hopen : s.conversation = some conversation) :
    ∃ made, (s.runTimed events).stores.calls = s.stores.calls ++ made := by
  let inv (s : Session ρ (Scripted Memory)) : Prop := Sound s ∧ s.conversation = some conversation
  have htime : ∀ s now, inv s → inv (s.atTime now) := fun s now hs => ⟨hs.1.atTime now, hs.2⟩
  have hstep : ∀ s op, inv s → Retains conversation id s op →
      StoresStep conversation s.stores (s.after op) ∧ inv (s.after op) := by
    intro s op hs hop
    have hstep := step_after hs.2 hs.1.linked.keyed hop.remains
    exact ⟨hstep.storesStep hs.1.linked.keyed, hs.1.after op, hstep.conversation_eq.trans hs.2⟩
  obtain ⟨-, made, hmade, -⟩ : inv (s.runTimed events) ∧
      ∃ made, (s.runTimed events).stores.calls = s.stores.calls ++ made ∧
        Saving conversation (fun _ => True) made :=
    h.preserves_and_exists_calls htime hstep (fun _ _ => trivial) ⟨hs, hopen⟩
  exact ⟨made, hmade⟩

/-- The save at the end of a response was accepted by a remote store that goes on to be truthful, and no other
record of the conversation passes for the response. -/
structure SavedForGood (conversation id : String) (s s' : Session ρ (Scripted Memory)) : Prop where
  /-- The remote store is truthful. -/
  truthful : ∃ holds held, Truthful holds held conversation ∧ holds s.stores.remote
  /-- The save was accepted. -/
  accepted : ∃ request, Noted s.stores s'.stores (.save conversation request (.ok ()))
  /-- No cached record passes for the response. -/
  genuine : ∀ m, s'.tree.get? id = some m →
    ∀ r ∈ s.stores.cache.inner.recordsOf conversation, Genuine m r

/-- A response that was saved for good is secured. -/
lemma Consolidates.exists_secured (h : Consolidates conversation s.stores s' m)
    (hlinked : Linked s'.tree.messages) (hsaved : SavedForGood conversation m.id s s') :
    ∃ (holds : ρ → Prop) (held : ρ → Option Tree) (keeping : Scripted Memory → Prop),
      Truthful holds held conversation ∧ Keeps keeping conversation (Genuine m) ∧
        Secured holds held keeping conversation m s' := by
  obtain ⟨holds, held, truth, hholds⟩ := hsaved.truthful
  have keeps := (Stores.keeps_memory conversation (Genuine m)).scripted
  exact ⟨holds, held, _, truth, keeps,
    h.secured hlinked truth keeps hholds (hsaved.genuine m h.get?_eq) hsaved.accepted⟩

/-- A response that has ended is not in flight again while no reload succeeds. -/
lemma Along.showsComplete_and_isActive {events : List Event}
    (h : Along (fun s op => (Retains conversation id s op ∧ ∀ sentAt, op ≠ .noteRequest id sentAt) ∧
      FailsToLoad s op) s events)
    (hs : ShowsComplete conversation id content s) (hactive : s.streams.isActive id = false) :
    ShowsComplete conversation id content (s.runTimed events) ∧
      (s.runTimed events).streams.isActive id = false := by
  let inv (s : Session ρ (Scripted Memory)) : Prop :=
    ShowsComplete conversation id content s ∧ s.streams.isActive id = false
  have htime : ∀ s now, inv s → inv (s.atTime now) :=
    fun s now hs => ⟨⟨hs.1.open_eq, hs.1.shown, hs.1.mem⟩, hs.2⟩
  refine h.preserves htime (fun s op hs hop => ?_) ⟨hs, hactive⟩
  obtain ⟨m, hm, hdone, -⟩ := hs.1.carries
  exact ⟨(hs.1.step_of_failsToLoad hop.1.1 hop.2).2,
    isActive_after hs.1.open_eq hs.1.shown.linked hm hdone hs.2 hop.1.1 hop.1.2⟩

/-- A response that has ended stays complete, and nothing that comes for it has an effect, as long as no reload
succeeds, or if it was saved for good when it ended. -/
lemma Consolidates.final (h : Consolidates conversation s.stores s' m) (hlinked : Linked s'.tree.messages)
    {later : List Event}
    (hlater : Along (fun s op => Retains conversation m.id s op ∧ ∀ sentAt, op ≠ .noteRequest m.id sentAt)
      s' later)
    (hkept : Along FailsToLoad s' later ∨ SavedForGood conversation m.id s s') :
    Carries m.id m.content (s'.runTimed later).tree.toHistory ∧
      ∀ op, Concerns m.id op → (s'.runTimed later).after op = s'.runTimed later := by
  have hend : Carries m.id m.content (s'.runTimed later).tree.toHistory ∧
      (s'.runTimed later).conversation = some conversation ∧
      (s'.runTimed later).streams.isActive m.id = false ∧ Linked (s'.runTimed later).tree.messages := by
    rcases hkept with hfails | hsaved
    · obtain ⟨hshown, hactive⟩ :=
        (hlater.and hfails).showsComplete_and_isActive (h.showsComplete hlinked) h.isActive_eq
      exact ⟨hshown.carries, hshown.open_eq, hactive, hshown.shown.linked⟩
    · obtain ⟨holds, held, keeping, truth, keeps, hsecured⟩ := h.exists_secured hlinked hsaved
      have hlast := (hlater.carries_of_secured truth keeps h.done_eq hsecured).1
      exact ⟨hlast.carries h.done_eq, hlast.open_eq, hlast.isActive_eq, hlast.shown.linked⟩
  obtain ⟨hcarries, hopen, hactive, hlinked'⟩ := hend
  refine ⟨hcarries, fun op hop => ?_⟩
  obtain ⟨m', hm', hdone, -⟩ := hcarries
  exact after_eq_self hopen hm' hdone ((hlinked'.keyed m.id m' hm').symm ▸ hactive) hop

/-- From the end of a response on every save carries it, complete and with all the content that has come, as
long as it is neither attached anew nor taken out, and no load succeeds. Loads may succeed as well if the save
at the end of the response was accepted, unless it is noted that the response was requested again. -/
theorem saving_carries_of_ends (hs : Sound s) (hopen : s.conversation = some conversation)
    (hm : s.tree.get? id = some m) (hends : Ends id op) (hidle : ¬ Idle s op) {events : List Event}
    (hretains : Along (Retains conversation id) (s.after op) events)
    (hkept : Along FailsToLoad (s.after op) events ∨
      SavedForGood conversation id s (s.after op) ∧
        Along (fun _ op => ∀ sentAt, op ≠ .noteRequest id sentAt) (s.after op) events) :
    Carries id (m.content ++ arriving id op) (s.after op).tree.toHistory ∧
      ∃ made, ((s.after op).runTimed events).stores.calls = (s.after op).stores.calls ++ made ∧
        Saving conversation (Carries id (m.content ++ arriving id op)) made := by
  obtain ⟨old, m', hold, rfl, hcontent, hafter⟩ :=
    exists_consolidates hopen hs.linked.keyed hends hidle
  obtain rfl := Option.some.inj (hm.symm.trans hold)
  have hlinked := (hs.after op).linked
  have hshown := hafter.showsComplete hlinked
  rw [← hcontent]
  refine ⟨hshown.carries, ?_⟩
  rcases hkept with hfails | ⟨hsaved, hnote⟩
  · exact ((hretains.and hfails).carries_of_failsToLoad hshown).2
  · obtain ⟨holds, held, keeping, truth, keeps, hsecured⟩ := hafter.exists_secured hlinked hsaved
    exact ((hretains.and hnote).carries_of_secured truth keeps hafter.done_eq hsecured).2

/-- A session that shows nothing, with a remote store that has a question and answers saves as prepared. -/
def unopened (saves : List (Except Failure Unit)) :
    Session (Remote.Scripted Remote.Archive) (Scripted Memory) where
  stores.remote.inner := (∅ : Remote.Archive).insert "c" (Tree.ofMessages [Message.ask "Why?" "a" 1] none)
  stores.remote.saves := saves
  stores.cache.inner := {}

/-- The ids of the messages that a call saves, and whether the save was accepted. -/
def saved : Call → Option (List String × Bool)
  | .save _ request reply => some (request.history.messages.keys, reply.isOk)
  | .outline .. | .bodies .. | .snapshot .. | .read .. | .put .. | .drop .. | .clear .. => none

/-- The session in which the question was loaded and a response to it has come, but for its end. -/
def answering (saves : List (Except Failure Unit)) :
    Session (Remote.Scripted Remote.Archive) (Scripted Memory) :=
  ((unopened saves).runTimed [⟨1, .load "c"⟩, ⟨2, .attach (some "a") (Message.await "model" "b" 2)⟩,
    ⟨3, .receive "b" { content := some "Because" }⟩]).atTime 4

/-- The conversation is loaded again, and another response to the question is attached and made complete. -/
def reloading : List Event :=
  [⟨5, .load "c"⟩, ⟨6, .attach (some "a") (Message.await "model" "d" 6)⟩, ⟨7, .finish "d"⟩]

/-- The session is sound when the response is about to end. -/
lemma sound_answering (saves : List (Except Failure Unit)) : Sound (answering saves) := by
  have hstart : Sound (unopened saves) := ⟨Tree.grounded_empty.toLinked, fun _ => rfl⟩
  exact (hstart.runTimed _).atTime 4

/-- The first response is neither attached anew nor taken out meanwhile. -/
lemma retains_reloading (s : Session (Remote.Scripted Remote.Archive) (Scripted Memory)) :
    Along (Retains "c" "b") s reloading := by
  refine Along.of_forall fun e he s => ?_
  simp only [reloading, List.mem_cons, List.not_mem_nil, or_false] at he
  refine ⟨?_, fun parent m hop => ?_, fun x hop => ?_⟩
  · rcases he with rfl | rfl | rfl
    · rfl
    · trivial
    · trivial
  · rcases he with rfl | rfl | rfl
    · cases hop
    · obtain ⟨-, rfl⟩ := Operation.attach.inj hop
      decide
    · cases hop
  · rcases he with rfl | rfl | rfl <;> cases hop

/-- The response has come but is not complete, whatever is prepared for the saves. -/
lemma exists_answer (saves : List (Except Failure Unit))
    (h : ((answering saves).tree.get? "b").map (fun m => (m.content, m.done)) = some ("Because", false)) :
    ∃ m, (answering saves).tree.get? "b" = some m ∧ m.content = "Because" ∧
      ¬ Idle (answering saves) (.finish "b") := by
  obtain ⟨m, hm, heq⟩ := Option.map_eq_some_iff.mp h
  obtain ⟨hcontent, hdone⟩ := Prod.mk.inj heq
  refine ⟨m, hm, hcontent, fun hidle => ?_⟩
  rw [(hidle m hm).1] at hdone
  cases hdone

/-- If the save at the end of the response is accepted, the response is carried by the save after the
reload. -/
theorem saving_carries_answering :
    Along (Retains "c" "b") ((answering []).after (.finish "b")) reloading ∧
    ∃ made, (((answering []).after (.finish "b")).runTimed reloading).stores.calls =
        ((answering []).after (.finish "b")).stores.calls ++ made ∧
      Saving "c" (Carries "b" "Because") made := by
  have hopen : (answering []).conversation = some "c" := by decide +kernel
  have hends : Ends "b" (.finish "b") := rfl
  obtain ⟨m, hm, hcontent, hidle⟩ := exists_answer [] (by decide +kernel)
  -- No answer is prepared, so the archive behind the script gives them all.
  have htruthful : Remote.Scripted.OnlyFails "c" (answering []).stores.remote := by
    refine ⟨?_, ?_, ?_, ?_, fun t ht => ?_⟩
    · rw [List.isEmpty_iff.mp (by decide +kernel : (answering []).stores.remote.outlines.isEmpty)]
      exact List.forall_mem_nil _
    · rw [List.isEmpty_iff.mp (by decide +kernel : (answering []).stores.remote.bodies.isEmpty)]
      exact List.forall_mem_nil _
    · rw [List.isEmpty_iff.mp (by decide +kernel : (answering []).stores.remote.snapshots.isEmpty)]
      exact List.forall_mem_nil _
    · rw [List.isEmpty_iff.mp (by decide +kernel : (answering []).stores.remote.saves.isEmpty)]
      exact List.forall_mem_nil _
    · have hinner : (answering []).stores.remote.inner["c"]? =
          some (Tree.ofMessages [Message.ask "Why?" "a" 1] none) := by decide +kernel
      obtain rfl := Option.some.inj (hinner.symm.trans ht)
      exact (Tree.wellFormed_ofMessages _ _).keyed
  have haccepted : ∃ request, Noted (answering []).stores ((answering []).after (.finish "b")).stores
      (.save "c" request (.ok ())) := by
    obtain ⟨-, m', -, -, -, hafter⟩ :=
      exists_consolidates hopen (sound_answering []).linked.keyed hends hidle
    obtain ⟨made, hmade, -⟩ := hafter.exists_calls
    have hok : (Remote.save "c" ((answering []).after (.finish "b")).saveRequest
        (answering []).stores.remote).1.isOk = true := by decide +kernel
    cases hreply : (Remote.save "c" ((answering []).after (.finish "b")).saveRequest
        (answering []).stores.remote).1 with
    | error e =>
      rw [hreply] at hok
      cases hok
    | ok =>
      rw [hreply, List.append_assoc] at hmade
      exact ⟨_, _, hmade, List.mem_append_right _ (List.mem_singleton_self _)⟩
  have hgenuine : ∀ m, ((answering []).after (.finish "b")).tree.get? "b" = some m →
      ∀ r ∈ (answering []).stores.cache.inner.recordsOf "c", Genuine m r := by
    have hall : (((answering []).after (.finish "b")).tree.get? "b").all (fun m =>
        ((answering []).stores.cache.inner.recordsOf "c").all fun r => Genuine m r) = true := by
      decide +kernel
    intro m hm r hr
    rw [hm, Option.all_some, List.all_eq_true] at hall
    simpa using hall r hr
  have hnote : Along (fun (_ : Session _ _) op => ∀ sentAt, op ≠ .noteRequest "b" sentAt)
      ((answering []).after (.finish "b")) reloading := by
    refine Along.of_forall fun e he _ sentAt hop => ?_
    simp only [reloading, List.mem_cons, List.not_mem_nil, or_false] at he
    rcases he with rfl | rfl | rfl <;> cases hop
  have hcarries := (saving_carries_of_ends (sound_answering []) hopen hm hends hidle
    (retains_reloading _) (Or.inr ⟨⟨⟨_, _, Remote.Scripted.truthful "c", htruthful⟩, haccepted, hgenuine⟩,
      hnote⟩)).2
  rw [hcontent] at hcarries
  exact ⟨retains_reloading _, hcarries⟩

/-- If the remote store cannot be reached when the response ends, the response is gone after the reload. The
one save that is made from its end on is accepted, and does not carry it. -/
theorem not_carries_answering :
    let refused := answering [.error (.unreachable "http://localhost" "refused")]
    refused.conversation = some "c" ∧
    Carries "b" "Because" (refused.after (.finish "b")).tree.toHistory ∧
    Along (Retains "c" "b") (refused.after (.finish "b")) reloading ∧
    ∃ made, ((refused.after (.finish "b")).runTimed reloading).stores.calls =
        (refused.after (.finish "b")).stores.calls ++ made ∧
      made.filterMap saved = [(["a", "d"], true)] := by
  intro refused
  have hopen : refused.conversation = some "c" := by decide +kernel
  have hafter : (refused.after (.finish "b")).conversation = some "c" := by decide +kernel
  obtain ⟨m, hm, hcontent, hidle⟩ : ∃ m, refused.tree.get? "b" = some m ∧ m.content = "Because" ∧
      ¬ Idle refused (.finish "b") := exists_answer _ (by decide +kernel)
  have hends : Ends "b" (.finish "b") := rfl
  have hsound : Sound refused := sound_answering _
  obtain ⟨old, m', hold, hid, hcontent', hconsolidates⟩ :=
    exists_consolidates hopen hsound.linked.keyed hends hidle
  have hretains := retains_reloading (refused.after (.finish "b"))
  refine ⟨hopen, ?_, hretains, ?_⟩
  · obtain rfl := Option.some.inj (hm.symm.trans hold)
    refine ⟨m', hid ▸ hconsolidates.get?_eq, hconsolidates.done_eq, ?_⟩
    rw [hcontent', hcontent]
    rfl
  · obtain ⟨made, hmade⟩ := hretains.exists_made (hsound.after _) hafter
    refine ⟨made, hmade, ?_⟩
    have hbefore : (refused.after (.finish "b")).stores.calls.filterMap saved = [(["a", "b"], false)] := by
      decide +kernel
    have hall : ((refused.after (.finish "b")).runTimed reloading).stores.calls.filterMap saved =
        [(["a", "b"], false), (["a", "d"], true)] := by
      decide +kernel
    rw [hmade, List.filterMap_append, hbefore] at hall
    exact List.append_cancel_left hall

end Memory

end DialogueSync.Client.Session
