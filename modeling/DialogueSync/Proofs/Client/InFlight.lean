import DialogueSync.Proofs.Client.Consolidation

/-!
# Responses in flight

A response that is attached under an unused id is in flight until it ends. Whatever happens meanwhile to other
messages, to the cache and to the calls on a truthful remote store, its content is what it was attached with,
followed by what has arrived (`InFlight.runTimed`).

This holds across reloads too. No copy of the response that other saves and the cache have taken meanwhile is
complete, so none of them takes its place; and as the session is in step with the remote store, the response
finds its place in the synchronised tree.
-/

namespace DialogueSync.Client.Session

open Cache (Memory Record Scripted)
open DialogueSync.Tree (Grounded isWithin parentIn)
open Message (SameBody)
open Remote (Truthful)
open Stores (Hereditary Throughout)

variable {ρ : Type} [Remote ρ] {s s' : Session ρ (Scripted Memory)} {conversation id content : String}
  {m : Message} {op : Operation} {holds : ρ → Prop} {held : ρ → Option Tree}

/-! ### What may happen -/

/-- A conversation was just opened: a new one that the remote store does not know, or one that was loaded from
a remote store which holds it with all parents. -/
inductive Opened (holds : ρ → Prop) (held : ρ → Option Tree) (conversation : String) :
    Session ρ (Scripted Memory) → Prop where
  /-- A new conversation. -/
  | new (s : Session ρ (Scripted Memory)) (hs : holds s.stores.remote)
      (hnone : held s.stores.remote = none) : Opened holds held conversation (s.startNew conversation)
  /-- A conversation that was loaded. -/
  | loaded (s : Session ρ (Scripted Memory)) (hs : holds s.stores.remote)
      (hopen : s.isElsewhere conversation)
      (hheld : ∀ t, held s.stores.remote = some t → Grounded t.messages)
      (hok : (s.stores.refresh conversation).1.isOk) :
      Opened holds held conversation (s.load conversation)

/-- The operation stays with the conversation, and attaches messages only under new ids. -/
structure Stays (held : ρ → Option Tree) (conversation : String) (s : Session ρ (Scripted Memory))
    (op : Operation) : Prop where
  /-- It stays with the conversation. -/
  remains : Remains conversation op
  /-- It attaches messages only under new ids. -/
  bringsNew : BringsNew held s op

/-- No message that is shown, held or cached has the id. -/
structure Unused (held : ρ → Option Tree) (conversation : String) (s : Session ρ (Scripted Memory))
    (id : String) : Prop where
  /-- None is shown. -/
  not_mem : id ∉ s.tree.messages
  /-- None is held by the remote store. -/
  not_mem_held : ∀ t, held s.stores.remote = some t → id ∉ t.messages
  /-- None is cached. -/
  not_cached : ∀ r ∈ s.stores.cache.inner.recordsOf conversation, r.id ≠ id

/-- The operation neither ends the response nor takes it out. -/
def Continues (id : String) (s : Session ρ (Scripted Memory)) : Operation → Prop
  | .receive x d => x = id → d.done = false
  | .finish x | .stop x => x ≠ id
  | .delete x => ¬ isWithin s.tree.messages id x
  | .startNew _ | .load _ | .attach .. | .select _ | .noteRequest .. | .recoverCache => True

/-- What arrives along a run, in the order in which it arrives. -/
def arrived (id : String) (events : List Event) : String :=
  String.join (events.map fun e => arriving id e.op)

omit [Remote ρ] in
/-- What arrives for a response in a run arrives in its first step or in the later ones. -/
lemma arrived_cons (id : String) (e : Event) (events : List Event) :
    arrived id (e :: events) = arriving id e.op ++ arrived id events :=
  String.join_cons

/-! ### Sessions that have just been opened -/

/-- No matter what is cached, every message has a property that all messages have. -/
lemma hereditary_true (conversation : String) :
    Hereditary conversation (fun _ => True) fun _ => True where
  of_sameBody _ _ _ _ := trivial
  of_good _ _ _ _ _ _ := trivial
  good_of _ _ _ _ _ _ := trivial

/-- What is read from a cache in memory is a record of some kind if all records are. -/
abbrev Caching (conversation : String) (good : Record → Prop) (k : Scripted Memory) : Prop :=
  ∀ r ∈ k.inner.recordsOf conversation, good r

/-- The session shows the conversation in step with the remote store, and a property pervades it. -/
structure Attuned (holds : ρ → Prop) (held : ρ → Option Tree) (conversation : String)
    (P : Message → Prop) (good : Record → Prop) (s : Session ρ (Scripted Memory)) : Prop
    extends Pervades holds held (Caching conversation good) conversation P s, InStep held s

omit [Remote ρ] in
lemma Attuned.atTime {P : Message → Prop} {good : Record → Prop}
    (h : Attuned holds held conversation P good s) (now : Int64) :
    Attuned holds held conversation P good (s.atTime now) :=
  ⟨h.toPervades.atTime now, h.toInStep.atTime now⟩

/-- A step that stays with the conversation leaves the session attuned if it brings in only messages with the
property. -/
lemma Attuned.after {P : Message → Prop} {good : Record → Prop}
    (h : Attuned holds held conversation P good s) (truth : Truthful holds held conversation)
    (hP : Hereditary conversation good P) (hstays : Stays held conversation s op)
    (hbrings : Brings P s op) : Attuned holds held conversation P good (s.after op) := by
  have keeps := (Stores.keeps_memory conversation good).scripted
  have hstep := step_after h.open_eq h.grounded.keyed hstays.remains
  exact ⟨h.toPervades.step truth keeps hP hstep hbrings,
    h.toInStep.step truth keeps hP h.toPervades hstep hstays.bringsNew⟩

/-- A session that has just been opened is attuned. -/
lemma Opened.attuned (h : Opened holds held conversation s) (truth : Truthful holds held conversation) :
    Attuned holds held conversation (fun _ => True) (fun _ => True) s := by
  cases h with
  | new s hs hnone =>
    have hnot : ∀ t, held s.stores.remote ≠ some t := by
      intro t ht
      rw [hnone] at ht
      cases ht
    refine ⟨⟨hs, rfl, ⟨Tree.grounded_empty.toLinked, fun _ _ _ => trivial⟩, ?_, fun _ _ => trivial⟩,
      ⟨Tree.grounded_empty, ?_, ?_⟩⟩
    · exact fun t ht => absurd ht (hnot t)
    · exact fun t ht => absurd ht (hnot t)
    · exact fun t ht => absurd ht (hnot t)
  | loaded s hs hopen hheld hok =>
    have keeps := (Stores.keeps_memory conversation fun _ => True).scripted
    have hstored : ∀ t, held s.stores.remote = some t → Throughout (fun _ => True) t :=
      fun t ht => ⟨(hheld t ht).toLinked, fun _ _ _ => trivial⟩
    obtain ⟨hholds, heq⟩ := (Stores.syncSteps_refresh s.stores conversation).held_eq truth hs
    obtain ⟨-, hrenders⟩ := Stores.inherits_refresh truth keeps (hereditary_true conversation) hs hstored
      fun _ _ => trivial
    cases hrefresh : s.stores.refresh conversation with
    | mk reply stores =>
      rw [hrefresh] at hok hholds heq hrenders
      cases reply with
      | error e => cases hok
      | ok outcome =>
        obtain ⟨t, ht, htree⟩ := hrenders _ rfl
        rw [load_elsewhere hopen hrefresh]
        refine ⟨⟨hholds, rfl, htree.toThroughout, ?_, fun _ _ => trivial⟩, ⟨⟨htree.linked, ?_⟩, ?_, ?_⟩⟩
        · exact fun t ht => hstored t (heq ▸ ht)
        · intro id parent hp
          change parentIn outcome.1.messages id = some parent at hp
          rw [htree.parentIn_eq] at hp
          exact (htree.mem_iff parent).mpr ((hheld t ht).mem_of_parentIn id parent hp)
        · exact fun t ht => hheld t (heq ▸ ht)
        · intro t' ht' id _ _
          obtain rfl := Option.some.inj (ht.symm.trans (heq ▸ ht'))
          exact (htree.parentIn_eq id).symm

/-! ### Responses in flight -/

/-- A message with this id is not complete. -/
def Unfinished (id : String) (m : Message) : Prop :=
  m.id = id → m.done = false

omit [Remote ρ] in
/-- As long as no copy of a response that is cached is complete, none is handed on that is. -/
lemma hereditary_unfinished (conversation id : String) :
    Hereditary conversation (fun r => Unfinished id r.message) (Unfinished id) where
  of_sameBody _ _ hsame h hid := hsame.done_eq ▸ h (hsame.id_eq.trans hid)
  of_good _ _ h _ _ _ := h
  good_of _ _ _ h _ _ := h

/-- A response is in flight with the content that has come so far, and no copy of it is complete. -/
structure InFlight (holds : ρ → Prop) (held : ρ → Option Tree) (conversation id content : String)
    (s : Session ρ (Scripted Memory)) : Prop
    extends Attuned holds held conversation (Unfinished id) (fun r => Unfinished id r.message) s where
  /-- The response is shown with its content. -/
  exists_content : ∃ m, s.tree.get? id = some m ∧ m.content = content
  /-- It is in flight. -/
  isActive_eq : s.streams.isActive id = true

omit [Remote ρ] in
/-- A response in flight is in the tree, not done, with the content so far. -/
lemma InFlight.exists_message (h : InFlight holds held conversation id content s) :
    ∃ m, s.tree.get? id = some m ∧ m.done = false ∧ m.content = content := by
  obtain ⟨m, hm, hcontent⟩ := h.exists_content
  exact ⟨m, hm, h.shown.of_get? id m hm (h.grounded.keyed id m hm), hcontent⟩

omit [Remote ρ] in
lemma InFlight.atTime (h : InFlight holds held conversation id content s) (now : Int64) :
    InFlight holds held conversation id content (s.atTime now) :=
  ⟨h.toAttuned.atTime now, h.exists_content, h.isActive_eq⟩

/-- A response that is attached under an unused id is in flight. -/
lemma inFlight_attach {P : Message → Prop} {good : Record → Prop} (truth : Truthful holds held conversation)
    (h : Attuned holds held conversation P good s) (hm : m.done = false)
    (hunused : Unused held conversation s m.id) (parent : Option String) :
    InFlight holds held conversation m.id m.content (s.after (.attach parent m)) := by
  have hattuned : Attuned holds held conversation (Unfinished m.id)
      (fun r => Unfinished m.id r.message) s := by
    refine ⟨⟨h.holds_remote, h.open_eq, ⟨h.grounded.toLinked, fun id m' hm' hid => ?_⟩,
      fun t ht => ⟨(h.grounded_held t ht).toLinked, fun id m' hm' hid => ?_⟩,
      fun r hr hid => absurd hid (hunused.not_cached r hr)⟩, h.toInStep⟩
    · have hkey : m'.id = id := h.grounded.keyed id m' hm'
      exact absurd (Tree.mem_iff_exists_get?.mpr ⟨m', hid ▸ hkey ▸ hm'⟩) hunused.not_mem
    · have hkey : m'.id = id := (h.grounded_held t ht).keyed id m' hm'
      exact absurd (Tree.mem_iff_exists_get?.mpr ⟨m', hid ▸ hkey ▸ hm'⟩) (hunused.not_mem_held t ht)
  have hstays : Stays held conversation s (.attach parent m) := by
    refine ⟨trivial, fun parent' m' hop => ?_⟩
    obtain ⟨-, rfl⟩ := Operation.attach.inj hop
    exact ⟨hunused.not_mem, hunused.not_mem_held⟩
  have hbrings : Brings (Unfinished m.id) s (.attach parent m) := by
    refine ⟨fun parent' m' hop _ => ?_, fun _ _ _ hrewrites => hrewrites.elim⟩
    obtain ⟨-, rfl⟩ := Operation.attach.inj hop
    exact hm
  obtain ⟨tree, hinsert⟩ := Tree.exists_insert_of_not_mem h.grounded hunused.not_mem parent
  refine ⟨hattuned.after truth (hereditary_unfinished conversation m.id) hstays hbrings, ?_, ?_⟩
  · change ∃ m', (s.attach parent m).2.tree.get? m.id = some m' ∧ m'.content = m.content
    obtain ⟨m', hm', hsame, -⟩ := Tree.get?_insert_self h.grounded.toLinked hinsert
    rw [attach_of_ok h.open_eq hinsert]
    exact ⟨m', (s.get?_attached tree m m.id).trans hm', hsame.content_eq.symm⟩
  · change (s.attach parent m).2.streams.isActive m.id = true
    rw [attach_of_ok h.open_eq hinsert]
    exact isActive_attached s tree hm

omit [Remote ρ] in
/-- A step that lets a response go on spares it, or brings an increment of it. -/
lemma Continues.spares_or (h : Continues id s op) (hattach : ∀ parent m, op = .attach parent m → m.id ≠ id) :
    Spares id s op ∨ ∃ d, op = .receive id d ∧ d.done = false := by
  cases op with
  | receive x d =>
    by_cases hx : x = id
    · exact Or.inr ⟨d, by rw [hx], h hx⟩
    · exact Or.inl hx
  | attach parent m => exact Or.inl (hattach parent m rfl)
  | finish x => exact Or.inl h
  | stop x => exact Or.inl h
  | delete x => exact Or.inl h
  | _ => exact Or.inl trivial

omit [Remote ρ] in
/-- Only the response itself adds to its content. -/
lemma arriving_of_spares (h : Spares id s op) : arriving id op = "" := by
  cases op with
  | receive x d => exact if_neg h
  | _ => rfl

namespace InFlight

variable (h : InFlight holds held conversation id content s)
include h

omit [Remote ρ] in
/-- A response in flight is not attached anew. -/
lemma attach_ne (hnew : BringsNew held s op) : ∀ parent m, op = .attach parent m → m.id ≠ id := by
  rintro parent m hop rfl
  obtain ⟨m', hm', -⟩ := h.exists_content
  exact (hnew parent m hop).1 (Tree.mem_iff_exists_get?.mpr ⟨m', hm'⟩)

omit [Remote ρ] in
/-- What goes on does not make the response complete. -/
lemma brings (hnew : BringsNew held s op) (hop : Continues id s op) : Brings (Unfinished id) s op where
  of_attach parent m heq hid := absurd hid (h.attach_ne hnew parent m heq)
  of_rewrites old new hold hrewrites hid := by
    have hid' : old.id = id := hrewrites.samePlace.id_eq ▸ hid
    cases op with
    | receive x d =>
      obtain ⟨rfl, hdone, rfl⟩ := hrewrites
      rw [if_neg (by rw [hop hid']; exact Bool.false_ne_true)]
      exact hdone
    | finish x => exact absurd (hrewrites.1.trans hid') hop
    | stop x => exact absurd (hrewrites.1.trans hid') hop
    | _ => exact hrewrites.elim

/-- A step that is not about the response leaves it in flight as it is. -/
lemma after_of_spares (truth : Truthful holds held conversation)
    (hstays : Stays held conversation s op) (hspares : Spares id s op) :
    (∃ m, (s.after op).tree.get? id = some m ∧ m.content = content) ∧
      (s.after op).streams.isActive id = true := by
  have hP := hereditary_unfinished conversation id
  have keeps := (Stores.keeps_memory conversation fun r => Unfinished id r.message).scripted
  obtain ⟨m, hm, hdone, hcontent⟩ := h.exists_message
  obtain rfl : m.id = id := h.grounded.keyed id m hm
  have hstep := step_after h.open_eq h.grounded.keyed hstays.remains
  constructor
  · have hbody : HasBodyOf (s.after op).tree m := by
      refine (hstep.treeStep h.grounded.keyed).hasBodyOf h.grounded.toLinked ⟨m, hm, SameBody.refl m⟩
        hspares fun tree report stores _ hrefresh => ?_
      -- The response finds its place in the synchronised tree, which does not have it complete.
      obtain ⟨hgrounded, hagree⟩ := h.toInStep.of_refresh truth keeps hP h.toPervades hrefresh
      obtain ⟨t, -, htree⟩ := h.toPervades.of_refresh truth keeps hP hrefresh
      have hcarried := (GroundedBlend.hasBodyOf_carryInFlight h.grounded hgrounded hagree s.streams).2
      exact hcarried m hm hdone h.isActive_eq fun m' hm' =>
        htree.of_get? m.id m' hm' (hgrounded.keyed m.id m' hm')
    obtain ⟨m', hm', hsame⟩ := hbody
    exact ⟨m', hm', hsame.content_eq.symm.trans hcontent⟩
  · by_cases hnote : ∃ sentAt, op = .noteRequest m.id sentAt
    · obtain ⟨sentAt, rfl⟩ := hnote
      exact Streams.isActive_start s.streams m.id sentAt
    · push Not at hnote
      rw [hstep.isActive_eq h.grounded.toLinked hspares hnote, h.isActive_eq]

/-- An increment adds its content. -/
lemma after_receive {d : Delta} (hd : d.done = false) :
    (∃ m, (s.after (.receive id d)).tree.get? id = some m ∧
        m.content = content ++ arriving id (.receive id d)) ∧
      (s.after (.receive id d)).streams.isActive id = true := by
  obtain ⟨m, hm, hdone, hcontent⟩ := h.exists_message
  obtain rfl : m.id = id := h.grounded.keyed id m hm
  change (∃ m', (s.receive m.id d).2.tree.get? m.id = some m' ∧ _) ∧
    (s.receive m.id d).2.streams.isActive m.id = true
  rw [receive_of_open hm hdone hd]
  constructor
  · refine ⟨d.applyTo m, Tree.get?_setBody_self (m := d.applyTo m) hm, ?_⟩
    rw [content_applyTo, hcontent, arriving, if_pos rfl]
  · change (s.streams.insert m.id _).contains m.id = true
    exact Std.ExtTreeMap.contains_insert_self

/-- What goes on leaves a response in flight, with what has arrived at the end of its content. -/
lemma after (truth : Truthful holds held conversation) (hstays : Stays held conversation s op)
    (hop : Continues id s op) :
    InFlight holds held conversation id (content ++ arriving id op) (s.after op) := by
  have hattuned := h.toAttuned.after truth (hereditary_unfinished conversation id) hstays
    (h.brings hstays.bringsNew hop)
  rcases hop.spares_or (h.attach_ne hstays.bringsNew) with hspares | ⟨d, rfl, hd⟩
  · obtain ⟨hcontent, hactive⟩ := h.after_of_spares truth hstays hspares
    rw [arriving_of_spares hspares, String.append_empty]
    exact ⟨hattuned, hcontent, hactive⟩
  · obtain ⟨hcontent, hactive⟩ := h.after_receive hd
    exact ⟨hattuned, hcontent, hactive⟩

/-- Along a run a response stays in flight, and its content is what it was, followed by what has arrived. -/
theorem runTimed (truth : Truthful holds held conversation) {events : List Event}
    (hevents : Along (fun s op => Stays held conversation s op ∧ Continues id s op) s events) :
    InFlight holds held conversation id (content ++ arrived id events) (s.runTimed events) := by
  induction events generalizing s content with
  | nil => rwa [arrived, List.map_nil, String.join_nil, String.append_empty]
  | cons e events ih =>
    have hnext := ih ((h.atTime e.now).after truth hevents.1.1 hevents.1.2) hevents.2
    rwa [String.append_assoc, ← arrived_cons] at hnext

end InFlight

end DialogueSync.Client.Session
