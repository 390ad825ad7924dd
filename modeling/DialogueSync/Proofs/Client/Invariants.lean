import DialogueSync.Proofs.Client.Effects

/-!
# What holds along the runs of a session

Two invariants of a session that stays with a conversation of a truthful remote store. A hereditary property
of messages `Pervades` the session if every message has it that the session shows, that the remote store holds
or that may come from the cache; it goes on to do so as long as only such messages are brought in
(`Pervades.step`). And a session is `InStep` with the remote store if both trees are grounded and agree on the
parents of the messages that they share, which it stays as long as new messages come under new ids
(`InStep.step`).
-/

namespace DialogueSync.Client.Session

open Cache (Record)
open DialogueSync.Tree (Grounded parentIn)
open Remote (Truthful)
open Stores (CacheSteps Hereditary Keeps Throughout)

variable {ρ κ : Type} {s s' : Session ρ κ} {conversation : String} {op : Operation}
  {holds : ρ → Prop} {held : ρ → Option Tree} {keeping : κ → Prop} {good : Record → Prop}
  {P : Message → Prop}

/-! ### Properties that pervade a session -/

/-- Every message has the property that the session shows or that the remote store holds for the conversation,
and the cache keeps what makes its messages have it. -/
structure Pervades (holds : ρ → Prop) (held : ρ → Option Tree) (keeping : κ → Prop)
    (conversation : String) (P : Message → Prop) (s : Session ρ κ) : Prop where
  /-- The remote store is in a state in which it is truthful. -/
  holds_remote : holds s.stores.remote
  /-- The conversation is open. -/
  open_eq : s.conversation = some conversation
  /-- What is shown has the property. -/
  shown : Throughout P s.tree
  /-- What the remote store holds has the property. -/
  stored : ∀ t, held s.stores.remote = some t → Throughout P t
  /-- What is cached is good. -/
  cached : keeping s.stores.cache

variable [Remote ρ] [Cache κ] (truth : Truthful holds held conversation)
  (keeps : Keeps keeping conversation good) (hP : Hereditary conversation good P)

namespace Pervades

omit [Remote ρ] [Cache κ] in
lemma atTime (h : Pervades holds held keeping conversation P s) (now : Int64) :
    Pervades holds held keeping conversation P (s.atTime now) :=
  ⟨h.holds_remote, h.open_eq, h.shown, h.stored, h.cached⟩

include truth keeps hP

/-- What is synchronised has the property. -/
lemma of_refresh (h : Pervades holds held keeping conversation P s) {tree : Tree} {report : Report}
    {stores : Stores ρ κ} (hrefresh : s.stores.refresh conversation = (.ok (tree, report), stores)) :
    ∃ t, held s.stores.remote = some t ∧ Stores.Renders P t tree := by
  have hrenders := (Stores.inherits_refresh truth keeps hP h.holds_remote h.stored h.cached).2
  rw [hrefresh] at hrenders
  exact hrenders _ rfl

/-- A step that brings in only messages with the property lets it go on to pervade the session. -/
lemma step (h : Pervades holds held keeping conversation P s) (hstep : Step conversation s op s')
    (hbrings : Brings P s op) : Pervades holds held keeping conversation P s' := by
  have hkeyed := h.shown.linked.keyed
  have hstores := hstep.storesStep hkeyed
  obtain ⟨hholds, hheld⟩ := hstores.held_cases truth h.holds_remote
  have hshown : Throughout P s'.tree := by
    refine (hstep.treeStep hkeyed).throughout h.shown hP.of_sameBody hbrings ?_
    intro tree report stores _ hrefresh
    obtain ⟨t, -, htree⟩ := h.of_refresh truth keeps hP hrefresh
    exact htree.toThroughout
  -- The records that a step writes are of messages that it shows in the end.
  have hgood : ∀ {t}, CacheSteps conversation (OfShown conversation s') s.stores t →
      keeping t.cache := by
    intro t ht
    refine keeps.of_cacheSteps (ht.mono fun records hrecords r hr => ?_) h.cached
    obtain ⟨id, m, now, hm, rfl⟩ := hrecords r hr
    exact hP.good_of m m now (hshown.of_get? id m hm) (hshown.of_get? id m hm) rfl
  refine ⟨hholds, hstep.conversation_eq.trans h.open_eq, hshown, fun t ht => ?_, ?_⟩
  · rcases hheld with hheld | hheld
    · exact h.stored t (hheld ▸ ht)
    · obtain rfl := Option.some.inj (hheld.symm.trans ht)
      exact hshown.congr hshown.linked.messages_ofHistory
  · cases hstores with
    | syncs hsyncs =>
      rw [hsyncs]
      exact (Stores.inherits_refresh truth keeps hP h.holds_remote h.stored h.cached).1
    | clears degraded hclears =>
      rw [hclears]
      exact keeps.clear _ h.cached
    | caches hcaches => exact hgood hcaches
    | saves cached hcaches hsaves =>
      rw [hsaves]
      exact (hgood hcaches : keeping cached.cache)

end Pervades

/-! ### Sessions in step with the remote store -/

/-- The tree of the session and the one that the remote store holds are grounded and agree on parents. -/
structure InStep (held : ρ → Option Tree) (s : Session ρ κ) : Prop where
  /-- The tree of the session is grounded. -/
  grounded : Grounded s.tree.messages
  /-- The tree that the remote store holds is grounded. -/
  grounded_held : ∀ t, held s.stores.remote = some t → Grounded t.messages
  /-- A message has the same parent in both trees. -/
  parentIn_eq : ∀ t, held s.stores.remote = some t → ∀ id, id ∈ t.messages → id ∈ s.tree.messages →
    parentIn t.messages id = parentIn s.tree.messages id

/-- A message that is attached comes under an id that neither tree has. -/
def BringsNew (held : ρ → Option Tree) (s : Session ρ κ) (op : Operation) : Prop :=
  ∀ parent m, op = .attach parent m →
    m.id ∉ s.tree.messages ∧ ∀ t, held s.stores.remote = some t → m.id ∉ t.messages

namespace InStep

omit [Remote ρ] [Cache κ] in
lemma atTime (h : InStep held s) (now : Int64) : InStep held (s.atTime now) :=
  ⟨h.grounded, h.grounded_held, h.parentIn_eq⟩

include truth

/-- A session is in step after a step if it would be with the remote store as it was before. -/
lemma of_storesStep (h : InStep held s) (hs : holds s.stores.remote)
    (hstores : StoresStep conversation s.stores s') (hgrounded : Grounded s'.tree.messages)
    (hparent : ∀ t, held s.stores.remote = some t → ∀ id, id ∈ t.messages → id ∈ s'.tree.messages →
      parentIn t.messages id = parentIn s'.tree.messages id) : InStep held s' := by
  obtain ⟨-, hheld | hheld⟩ := hstores.held_cases truth hs
  · exact ⟨hgrounded, hheld ▸ h.grounded_held, hheld ▸ hparent⟩
  · have hmessages : (Tree.ofHistory s'.tree.toHistory).messages = s'.tree.messages :=
      hgrounded.toLinked.messages_ofHistory
    refine ⟨hgrounded, fun t ht => ?_, fun t ht id _ _ => ?_⟩
    · obtain rfl := Option.some.inj (hheld.symm.trans ht)
      exact hmessages ▸ hgrounded
    · obtain rfl := Option.some.inj (hheld.symm.trans ht)
      rw [hmessages]

include keeps hP

variable (hs : Pervades holds held keeping conversation P s)
include hs

/-- What a session in step is synchronised with is grounded and agrees with it on parents. -/
lemma of_refresh (h : InStep held s) {tree : Tree} {report : Report} {stores : Stores ρ κ}
    (hrefresh : s.stores.refresh conversation = (.ok (tree, report), stores)) :
    Grounded tree.messages ∧ ∀ id, id ∈ tree.messages → id ∈ s.tree.messages →
      parentIn tree.messages id = parentIn s.tree.messages id := by
  obtain ⟨t, ht, htree⟩ := hs.of_refresh truth keeps hP hrefresh
  refine ⟨⟨htree.linked, fun id parent hp => ?_⟩, fun id hid hid' => ?_⟩
  · rw [htree.parentIn_eq] at hp
    exact (htree.mem_iff parent).mpr ((h.grounded_held t ht).mem_of_parentIn id parent hp)
  · rw [htree.parentIn_eq]
    exact h.parentIn_eq t ht id ((htree.mem_iff id).mp hid) hid'

/-- A step that attaches messages only under new ids leaves a session in step. -/
lemma step (h : InStep held s) (hstep : Step conversation s op s') (hnew : BringsNew held s op) :
    InStep held s' := by
  have hkeyed := h.grounded.keyed
  have hstores := hstep.storesStep hkeyed
  rcases (hstep.treeStep hkeyed).grounded_or_carry h.grounded with
    ⟨hgrounded, hlinks⟩ | ⟨tree, report, stores, hrefresh, htree⟩
  · refine h.of_storesStep truth hs.holds_remote hstores hgrounded fun t ht id hid hid' => ?_
    have hne : ∀ parent m, op = .attach parent m → id ≠ m.id := by
      intro parent m hop heq
      exact (hnew parent m hop).2 t ht (heq ▸ hid)
    obtain ⟨hmem, hparent⟩ := hlinks id hid' hne
    rw [hparent, h.parentIn_eq t ht id hid hmem]
  · obtain ⟨hgrounded, hagree⟩ := of_refresh truth keeps hP hs h hrefresh
    obtain ⟨t, ht, hrenders⟩ := hs.of_refresh truth keeps hP hrefresh
    obtain ⟨hblend, -⟩ :=
      GroundedBlend.hasBodyOf_carryInFlight h.grounded hgrounded hagree s.streams
    refine h.of_storesStep truth hs.holds_remote hstores ?_ fun t' ht' id hid _ => ?_
    · rw [htree]
      exact hblend.grounded
    · obtain rfl := Option.some.inj (ht.symm.trans ht')
      rw [htree, hblend.parentIn_synced id ((hrenders.mem_iff id).mpr hid), hrenders.parentIn_eq]

end InStep

end DialogueSync.Client.Session
