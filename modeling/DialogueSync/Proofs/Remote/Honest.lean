import DialogueSync.Proofs.Bodies
import DialogueSync.Proofs.IdMap
import DialogueSync.Remote.Archive

/-!
# Honest remote stores

A remote store is `Honest` about a conversation if it answers from a tree: with its outline, with the bodies
that it has, and with the whole of it. How a reply for bodies is ordered, what else it contains and which
links its messages carry is left open. An archive is honest about every conversation that it has a tree for
(`Archive.honest`).

If it may also fail, whenever it is asked, it is still `Steady`.
-/

namespace DialogueSync

open Message (SameBody)

/-- A reply for some ids has the bodies of the tree, and contains the messages of the tree with these ids. -/
structure Tree.Supplies (t : Tree) (ids : List String) (reply : List Message) : Prop where
  /-- A message that the tree has comes with the body that it has there. -/
  sameBody : ∀ m ∈ reply, ∀ m', t.get? m.id = some m' → SameBody m m'
  /-- Every message of the tree that was asked for comes. -/
  exists_mem : ∀ id ∈ ids, t.contains id → ∃ m ∈ reply, m.id = id

/-- A reply of messages as they are in the tree has the bodies of the tree. -/
lemma Tree.supplies_of_get? {t : Tree} {ids : List String} {reply : List Message}
    (hreply : ∀ m ∈ reply, t.get? m.id = some m)
    (hall : ∀ id ∈ ids, t.contains id → ∃ m ∈ reply, m.id = id) : t.Supplies ids reply where
  sameBody m hm m' hm' := by
    rw [hreply m hm] at hm'
    obtain rfl := Option.some.inj hm'
    exact SameBody.refl m
  exists_mem := hall

/-- The messages of the tree with some ids supply these. -/
lemma Tree.supplies_filterMap {t : Tree} (ht : IdMap.Keyed Message.id t.messages) (ids : List String) :
    t.Supplies ids (ids.filterMap t.get?) := by
  refine Tree.supplies_of_get? (fun m hm => ?_) fun id hid hmem => ?_
  · obtain ⟨id, -, hid⟩ := List.mem_filterMap.mp hm
    rw [ht id m hid, hid]
  · obtain ⟨m, hm⟩ := mem_iff_exists_getElem?.mp hmem
    exact ⟨m, List.mem_filterMap.mpr ⟨id, hid, hm⟩, ht id m hm⟩

/-- A snapshot of a tree has all its bodies, and no others. -/
lemma Tree.supplies_snapshot {t : Tree} (ht : IdMap.Keyed Message.id t.messages) :
    t.Supplies t.messages.keys t.snapshot.bodies ∧ ∀ m ∈ t.snapshot.bodies, t.contains m.id := by
  have hget : ∀ m ∈ t.messages.values, t.get? m.id = some m := by
    intro m hm
    obtain ⟨id, hid⟩ := mem_values_iff.mp hm
    rw [ht id m hid, Tree.get?, hid]
  refine ⟨Tree.supplies_of_get? hget fun id _ hmem => ?_, fun m hm => ?_⟩
  · obtain ⟨m, hm⟩ := mem_iff_exists_getElem?.mp hmem
    exact ⟨m, mem_values_iff.mpr ⟨id, hm⟩, ht id m hm⟩
  · exact mem_iff_exists_getElem?.mpr ⟨m, hget m hm⟩

namespace Remote

/-- In all states with a property the remote store answers what is asked about a conversation from a tree,
and stays in such states. -/
structure Honest {ρ : Type} [Remote ρ] (holds : ρ → Prop) (conversation : String) (t : Tree) : Prop where
  /-- The outline is that of the tree. -/
  outline : ∀ a, holds a → ∃ a', Remote.outline conversation a = (.ok t.outline, a') ∧ holds a'
  /-- The bodies are those of the tree. -/
  bodies : ∀ a ids, holds a → ∃ reply a', Remote.bodies conversation ids a = (.ok reply, a') ∧
    t.Supplies ids reply ∧ holds a'
  /-- The whole conversation is the tree. -/
  snapshot : ∀ a, holds a → ∃ full a', Remote.snapshot conversation a = (.ok full, a') ∧
    full.outline = t.outline ∧ t.Supplies t.messages.keys full.bodies ∧
    (∀ m ∈ full.bodies, t.contains m.id) ∧ holds a'

/-- In all states with a property the remote store answers what is asked about a conversation from a tree or with
a failure, and stays in such states. -/
structure Steady {ρ : Type} [Remote ρ] (holds : ρ → Prop) (conversation : String) (t : Tree) : Prop where
  /-- The outline is that of the tree. -/
  outline : ∀ a, holds a → holds (Remote.outline conversation a).2 ∧
    ∀ o, (Remote.outline conversation a).1 = .ok o → o = t.outline
  /-- The bodies are those of the tree. -/
  bodies : ∀ a ids, holds a → holds (Remote.bodies conversation ids a).2 ∧
    ∀ reply, (Remote.bodies conversation ids a).1 = .ok reply → t.Supplies ids reply
  /-- The whole conversation is the tree. -/
  snapshot : ∀ a, holds a → holds (Remote.snapshot conversation a).2 ∧
    ∀ full, (Remote.snapshot conversation a).1 = .ok full → full.outline = t.outline ∧
      t.Supplies t.messages.keys full.bodies ∧ ∀ m ∈ full.bodies, t.contains m.id

/-- An honest server is a steady one. -/
lemma Honest.steady {ρ : Type} [Remote ρ] {holds : ρ → Prop} {conversation : String} {t : Tree}
    (h : Honest holds conversation t) : Steady holds conversation t where
  outline a ha := by
    obtain ⟨a', hreply, ha'⟩ := h.outline a ha
    rw [hreply]
    exact ⟨ha', fun o ho => (Except.ok.inj ho).symm⟩
  bodies a ids ha := by
    obtain ⟨bodies, a', hreply, hsupplies, ha'⟩ := h.bodies a ids ha
    rw [hreply]
    refine ⟨ha', fun reply heq => ?_⟩
    rwa [← Except.ok.inj heq]
  snapshot a ha := by
    obtain ⟨snapshot, a', hreply, houtline, hsupplies, hmem, ha'⟩ := h.snapshot a ha
    rw [hreply]
    refine ⟨ha', fun full heq => ?_⟩
    rw [← Except.ok.inj heq]
    exact ⟨houtline, hsupplies, hmem⟩

/-- What is stored is there afterwards as the tree of the history. -/
lemma Archive.getElem?_store (a : Archive) (conversation : String) (h : History) :
    (a.store conversation h)[conversation]? = some (Tree.ofHistory h) :=
  Std.ExtTreeMap.getElem?_insert_self

/-- An archive is honest about a conversation as long as it has the tree for it. -/
lemma Archive.honest {t : Tree} (ht : IdMap.Keyed Message.id t.messages) (conversation : String) :
    Honest (fun a : Archive => a[conversation]? = some t) conversation t where
  outline a ha := by
    refine ⟨a, ?_, ha⟩
    change (a.ask conversation Tree.outline, a) = _
    rw [ask, ha]
  bodies a ids ha := by
    refine ⟨ids.filterMap t.get?, a, ?_, Tree.supplies_filterMap ht ids, ha⟩
    change (a.ask conversation (fun t => ids.filterMap t.get?), a) = _
    rw [ask, ha]
  snapshot a ha := by
    obtain ⟨hsupplies, hmem⟩ := Tree.supplies_snapshot ht
    refine ⟨t.snapshot, a, ?_, rfl, hsupplies, hmem, ha⟩
    change (a.ask conversation Tree.snapshot, a) = _
    rw [ask, ha]

end Remote

end DialogueSync
