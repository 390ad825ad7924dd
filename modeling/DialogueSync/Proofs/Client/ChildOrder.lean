import DialogueSync.Proofs.Client.Agreement
import DialogueSync.Proofs.Client.Provenance
import DialogueSync.Proofs.Tree.Siblings

/-!
# The order of children after a differential pass

The outline of a remote store gives the parent and the position of a message, and the client takes both from
there. When a message was created belongs to its body, which may come from a record of the cache; the record
need only have the right fingerprint, and that does not depend on the time of creation once the message was
changed. So after a differential pass against a remote store that is honest about a well-formed tree, the
children of a message are those of that tree, and they stand in its order exactly if siblings at one
position are created in the same order (`children_refresh_iff`).
-/

namespace DialogueSync.Client.Stores

open Cache (Memory Record)
open Message (SameBody)
open Remote (Honest)
open DialogueSync.Tree (CreatedAlike)

variable {ρ κ : Type} [Remote ρ] [Cache κ] {conversation : String} {t : Tree} {holds : ρ → Prop}
  {s s' : Stores ρ κ}

/-- A record of the message was returned by the cache, with the time of creation `createdAt` and the
fingerprint that the message has in the tree. -/
def Reused (s s' : Stores ρ κ) (conversation : String) (m : Message) (createdAt : Int64) : Prop :=
  ∃ records r, Noted s s' (.read conversation (.ok records)) ∧ r ∈ records ∧ r.id = m.id ∧
    r.fingerprint = m.fingerprint ∧ r.message.createdAt = createdAt

namespace Pass

variable (p : Pass s s' conversation) (honest : Honest holds conversation t) (hs : holds s.remote)

/-- A reading after the outline has come is one of the pass. -/
lemma noted_of_noted_asked {call : Call} (h : Noted p.asked s' call) : Noted s s' call := by
  have hasked : s.calls <+: p.asked.calls := by
    rw [p.asked_eq]
    exact List.prefix_append _ _
  exact h.mono hasked List.prefix_rfl

include honest hs

/-- A body was created when the tree says so, or at the time that a record of it gives. -/
lemma createdAt_of_bodyOf {id : String} {m : Message} {b : Body} (ht : IdMap.Keyed Message.id t.messages)
    (hm : t.get? id = some m) (hb : p.bodyOf id (Tree.nodeOf m) = some b) :
    b.message.createdAt = m.createdAt ∨ Reused s s' conversation m b.message.createdAt := by
  have hn : p.outline.nodes[id]? = some (Tree.nodeOf m) := by
    rw [(p.outline_eq honest hs).1, Tree.getElem?_outline, hm, Option.map_some]
  have hid : m.id = id := ht id m hm
  rcases p.bodyOf_cases hn hb with ⟨r, hr, hrid, hcur, rfl⟩ | ⟨src, hsrc, rfl⟩ | ⟨r, hr, hcur, rfl⟩
  · obtain ⟨records, hnoted, hmem⟩ := p.exists_noted_of_reread hr
    have hnoted' := p.noted_of_noted_asked hnoted
    exact Or.inr ⟨records, r, hnoted', hmem, hrid.trans hid.symm, hcur, rfl⟩
  · have hsame := p.sameBody_of_fetched honest hs hsrc hm
    exact Or.inl hsame.createdAt_eq
  · obtain ⟨records, hnoted, hmem⟩ := p.exists_noted_of_held hr
    have hnoted' := p.noted_of_noted_asked hnoted
    have hrid := (p.mem_of_held hr).2
    exact Or.inr ⟨records, r, hnoted', hmem, hrid.trans hid.symm, hcur, rfl⟩

/-- The tree of the pass has the ids of the tree that the remote store answers from. -/
lemma contains_tree_iff (id : String) : p.tree.contains id ↔ t.contains id := by
  rw [p.tree_eq, ← Tree.mem_outline_iff (t := t), ← (p.outline_eq honest hs).1, ← p.mem_bodies_iff]
  exact Tree.mem_ofIdMap_iff

/-- A message of the pass has the parent and the position that it has in the tree. -/
lemma place_eq (ht : t.WellFormed) {id : String} {m m' : Message} (hm : p.tree.get? id = some m)
    (hm' : t.get? id = some m') :
    m.parent = m'.parent ∧ m.position = m'.position ∧
      (m.createdAt = m'.createdAt ∨ Reused s s' conversation m' m.createdAt) := by
  have houtline := (p.outline_eq honest hs).1
  have hn : p.outline.nodes[id]? = some (Tree.nodeOf m') := by
    rw [houtline, Tree.getElem?_outline, hm', Option.map_some]
  rw [p.tree_eq] at hm
  obtain ⟨body, hbody, hparent, heq⟩ := Tree.exists_of_get?_ofIdMap hm
  obtain ⟨n, b, hn', hb, rfl⟩ := p.exists_bodyOf_of_bodies hbody
  obtain rfl := Option.some.inj (hn.symm.trans hn')
  obtain rfl : b.message.id = id := p.id_eq_of_bodyOf hn hb
  rw [Outline.link_eq hn] at hparent heq
  have hcreated := p.createdAt_of_bodyOf honest hs ht.keyed hm' hb
  refine ⟨?_, by rw [heq]; rfl, by rw [heq]; exact hcreated⟩
  rcases hparent with hparent | ⟨hcircular, -⟩
  · exact hparent
  · -- The parent links are those of a tree, which has no circle.
    rw [p.parentIn_bodies, houtline, Tree.parentOf_outline] at hcircular
    exact absurd hcircular (ht.acyclic _)

end Pass

/-- After a differential pass against a remote store that is honest about a well-formed tree, every message
of that tree has the parent and the position that it has there, and was created when the tree says so or
when a record says so that the cache returned under the right fingerprint. The lists of children are those of
the tree exactly if siblings at one position are created in the same order as there. -/
theorem children_refresh_iff (honest : Honest holds conversation t) (ht : t.WellFormed)
    (hs : holds s.remote) {t' : Tree} {report : Report}
    (h : s.refresh conversation = (.ok (t', report), s')) (hmode : report.mode = .differential) :
    (∀ id, t'.contains id ↔ t.contains id) ∧
      (∀ id m m', t'.get? id = some m → t.get? id = some m' →
        m.parent = m'.parent ∧ m.position = m'.position ∧
          (m.createdAt = m'.createdAt ∨ Reused s s' conversation m' m.createdAt)) ∧
      ((∀ id, (t'.get? id).map Message.children = (t.get? id).map Message.children) ↔
        CreatedAlike t' t) := by
  obtain ⟨p, rfl⟩ := exists_pass_of_refresh h hmode
  have hids := p.contains_tree_iff honest hs
  have hplace : ∀ id m m', p.tree.get? id = some m → t.get? id = some m' →
      m.parent = m'.parent ∧ m.position = m'.position ∧
        (m.createdAt = m'.createdAt ∨ Reused s s' conversation m' m.createdAt) :=
    fun id m m' hm hm' => p.place_eq honest hs ht hm hm'
  have hlinked : Tree.Linked p.tree.messages :=
    (Tree.wellFormed_ofMessages p.assembly.bodies.values p.outline.current).toLinked
  refine ⟨hids, hplace, Tree.children_eq_iff_createdAlike hlinked ht.toLinked hids ?_⟩
  intro id m m' hm hm'
  obtain ⟨hparent, hposition, -⟩ := hplace id m m' hm hm'
  exact ⟨hparent, hposition⟩

/-- A question with two answers, both of which were changed after they were created. -/
def twoAnswers : History where
  messages := IdMap.collect Message.id
    [Message.ask "Why?" "a" 1,
      { Message.ask "Because." "b" 2 with parent := some "a", updatedAt := some 5 },
      { Message.ask "Who knows?" "d" 3 with parent := some "a", updatedAt := some 6 }]
  current := some "b"

/-- The two answers in an archive, and a cache that holds the first one as created at some time. -/
def withFirstAnswer (createdAt : Int64) : Stores Remote.Archive Memory where
  remote := (∅ : Remote.Archive).store "c" twoAnswers
  cache := ({} : Memory).written
    [Record.own "c" { Message.ask "Because." "b" createdAt with updatedAt := some 5 } 0]

/-- The archive with the two answers is honest about them. -/
lemma honest_withFirstAnswer (createdAt : Int64) :
    Honest (fun a : Remote.Archive => a["c"]? = some (Tree.ofHistory twoAnswers)) "c"
        (Tree.ofHistory twoAnswers) ∧
      (withFirstAnswer createdAt).remote["c"]? = some (Tree.ofHistory twoAnswers) :=
  ⟨Remote.Archive.honest (Tree.wellFormed_ofHistory twoAnswers).keyed "c",
    Remote.Archive.getElem?_store ∅ "c" twoAnswers⟩

/-- With a record that gives another time, but one before the second answer, the children are as they
should be. -/
theorem children_refresh_twoAnswers :
    ∃ t report s', (withFirstAnswer 0).refresh "c" = (.ok (t, report), s') ∧
      report.mode = .differential ∧
      ∀ id, (t.get? id).map Message.children =
        ((Tree.ofHistory twoAnswers).get? id).map Message.children := by
  have hgood : ∀ outcome ∈ ((withFirstAnswer 0).refresh "c").1.toOption,
      outcome.2.mode = .differential ∧ CreatedAlike outcome.1 (Tree.ofHistory twoAnswers) := by
    decide +kernel
  have hok : ((withFirstAnswer 0).refresh "c").1.isOk = true := by decide +kernel
  cases hreply : ((withFirstAnswer 0).refresh "c").1 with
  | error e =>
    rw [hreply] at hok
    cases hok
  | ok outcome =>
    rw [hreply] at hgood
    obtain ⟨hmode, hcreated⟩ := hgood outcome rfl
    have hrefresh : (withFirstAnswer 0).refresh "c" =
        (.ok (outcome.1, outcome.2), ((withFirstAnswer 0).refresh "c").2) := Prod.ext hreply rfl
    obtain ⟨-, -, hiff⟩ := children_refresh_iff (honest_withFirstAnswer 0).1
      (Tree.wellFormed_ofHistory twoAnswers) (honest_withFirstAnswer 0).2 hrefresh hmode
    exact ⟨_, _, _, hrefresh, hmode, hiff.mpr hcreated⟩

/-- With a record that gives a time after the second answer, the answers change places. -/
theorem children_refresh_reordered :
    ∃ outcome ∈ ((withFirstAnswer 9).refresh "c").1.toOption, outcome.2.mode = .differential ∧
      ((Tree.ofHistory twoAnswers).get? "a").map Message.children = some ["b", "d"] ∧
      (outcome.1.get? "a").map Message.children = some ["d", "b"] := by
  decide +kernel

end DialogueSync.Client.Stores
