import DialogueSync.Proofs.Bodies
import DialogueSync.Proofs.Cache.Memory
import DialogueSync.Proofs.Client.Pass
import DialogueSync.Proofs.Tree.WellFormed
import DialogueSync.Remote.Archive

/-!
# Where the messages of a synchronised tree come from

A differential pass brings nothing foreign and nothing out of date into the tree, whatever the remote store
answers and whatever the cache does. The ids and links are those of the outline, apart from links that run
in a circle, and every body was either in the reply to the one call for bodies or in a record that the cache
returned during the pass under the fingerprint of the outline (`exists_source_of_refresh`).
-/

namespace DialogueSync.Client

open Cache (Record)
open Message (SameBody)
open DialogueSync.Tree (Circular)

namespace Stores

variable {ρ κ : Type} [Remote ρ] [Cache κ]

/-- A full fetch reports that it was one. -/
lemma mode_of_refreshWhole {s s' : Stores ρ κ} {conversation : String} {t : Tree} {report : Report}
    (h : s.refreshWhole conversation = (.ok (t, report), s')) : report.mode = .full := by
  obtain ⟨e, hreply, -⟩ | ⟨full, asked, -, hreply, -⟩ := refreshWhole_cases h
  · cases hreply
  · obtain ⟨-, rfl⟩ := Prod.mk.inj (Except.ok.inj hreply)
    rfl

/-- Synchronising that reports a differential pass was one. -/
lemma exists_pass_of_refresh {s s' : Stores ρ κ} {conversation : String} {t : Tree} {report : Report}
    (h : s.refresh conversation = (.ok (t, report), s')) (hmode : report.mode = .differential) :
    ∃ p : Pass s s' conversation, t = p.tree := by
  have hfull : ∀ t' : Stores ρ κ, t'.refreshWhole conversation ≠ (.ok (t, report), s') := by
    intro t' hwhole
    rw [mode_of_refreshWhole hwhole] at hmode
    cases hmode
  rcases refresh_cases h with ⟨-, p, hp⟩ | ⟨-, e, failed, -, hwhole⟩ | ⟨-, hwhole⟩
  · exact ⟨p, congrArg Prod.fst (Except.ok.inj hp)⟩
  · exact absurd hwhole (hfull failed)
  · exact absurd hwhole (hfull s)

namespace Pass

variable {s s' : Stores ρ κ} {conversation : String} (p : Pass s s' conversation)

/-! ### The calls that bodies come from -/

/-- The outline was asked for during the pass. -/
lemma noted_outline : Noted s s' (.outline conversation (.ok p.outline)) := by
  have hnoted : Noted s p.asked (.outline conversation (.ok p.outline)) :=
    ⟨_, by rw [p.asked_eq], List.mem_singleton_self _⟩
  obtain ⟨hread, hstocked, hsupplied, hcached, hchecked, hend⟩ := p.calls_isPrefix
  have hlater := hread.trans (hstocked.trans (hsupplied.trans (hcached.trans (hchecked.trans hend))))
  exact hnoted.mono List.prefix_rfl hlater

/-- Bodies that came were asked for once the outline had come. -/
lemma noted_bodies {reply : List Message}
    (hask : p.stocked.askBodies conversation p.wanted = (.ok reply, p.supplied)) :
    Noted p.asked s' (.bodies conversation p.wanted (.ok reply)) := by
  have hnoted : Noted p.stocked p.supplied (.bodies conversation p.wanted (.ok reply)) :=
    ⟨_, calls_askBodies hask, List.mem_singleton_self _⟩
  obtain ⟨hread, hstocked, -, hcached, hchecked, hend⟩ := p.calls_isPrefix
  exact hnoted.mono (hread.trans hstocked) (hcached.trans (hchecked.trans hend))

/-- What is held was returned by a reading. -/
lemma exists_noted_of_held {id : String} {r : Record} (h : p.holdings.held[id]? = some r) :
    ∃ records, Noted p.asked s' (.read conversation (.ok records)) ∧ r ∈ records := by
  obtain ⟨records, hnoted, hr⟩ := exists_noted_of_cachedRecords (p.mem_of_held h).1
  obtain ⟨-, hstocked, hsupplied, hcached, hchecked, hend⟩ := p.calls_isPrefix
  have hlater := hstocked.trans (hsupplied.trans (hcached.trans (hchecked.trans hend)))
  exact ⟨records, hnoted.mono List.prefix_rfl hlater, hr⟩

/-- What was read in the end was returned by a reading. -/
lemma exists_noted_of_reread {r : Record} (h : r ∈ p.reread.getD []) :
    ∃ records, Noted p.asked s' (.read conversation (.ok records)) ∧ r ∈ records := by
  have hr : r ∈ (p.cached.cachedRecords conversation).1.getD [] := by
    rwa [p.cachedRecords_cached]
  obtain ⟨records, hnoted, hr⟩ := exists_noted_of_cachedRecords hr
  rw [p.cachedRecords_cached] at hnoted
  obtain ⟨hread, hstocked, hsupplied, hcached, -, hend⟩ := p.calls_isPrefix
  have hearlier := hread.trans (hstocked.trans (hsupplied.trans hcached))
  exact ⟨records, hnoted.mono hearlier hend, hr⟩

/-- What was fetched was in the reply to a call for bodies. -/
lemma exists_noted_of_fetched {id : String} {m : Message} (h : p.fetched[id]? = some m) :
    ∃ ids reply, Noted p.asked s' (.bodies conversation ids (.ok reply)) ∧
      ∃ src ∈ reply, m = p.outline.link src := by
  obtain ⟨-, reply, hask, hsrc⟩ := p.exists_of_fetched h
  exact ⟨p.wanted, reply, p.noted_bodies hask, hsrc⟩

/-- A body comes from a reply of the remote store, or from a current record that the cache returned. -/
lemma exists_source_of_bodyOf {id : String} {n : Node} {b : Body}
    (hn : p.outline.nodes[id]? = some n) (h : p.bodyOf id n = some b) :
    ∃ src : Message, SameBody src b.message ∧
      ((∃ ids reply, Noted p.asked s' (.bodies conversation ids (.ok reply)) ∧ src ∈ reply) ∨
        ∃ records r, Noted p.asked s' (.read conversation (.ok records)) ∧ r ∈ records ∧
          r.message = src ∧ r.fingerprint = n.fingerprint) := by
  rcases p.bodyOf_cases hn h with ⟨r, hread, -, hcur, rfl⟩ | ⟨m, hm, rfl⟩ | ⟨r, hr, hcur, rfl⟩
  · obtain ⟨records, hnoted, hmem⟩ := p.exists_noted_of_reread hread
    exact ⟨r.message, SameBody.refl _, Or.inr ⟨records, r, hnoted, hmem, rfl, hcur⟩⟩
  · obtain ⟨ids, reply, hnoted, src, hsrc, rfl⟩ := p.exists_noted_of_fetched hm
    exact ⟨src, Outline.sameBody_link _ _, Or.inl ⟨ids, reply, hnoted, hsrc⟩⟩
  · obtain ⟨records, hnoted, hmem⟩ := p.exists_noted_of_held hr
    exact ⟨r.message, SameBody.refl _, Or.inr ⟨records, r, hnoted, hmem, rfl, hcur⟩⟩

/-! ### Links -/

/-- The bodies have the parents of the outline. -/
lemma parentIn_bodies : Tree.parentIn p.assembly.bodies = p.outline.parentOf := by
  funext id
  rw [Tree.parentIn, Outline.parentOf]
  cases hm : p.assembly.bodies[id]? with
  | none =>
    cases hn : p.outline.nodes[id]? with
    | none => rfl
    | some n =>
      obtain ⟨m, hm'⟩ := mem_iff_exists_getElem?.mp
        (p.mem_bodies_iff.mpr (mem_iff_exists_getElem?.mpr ⟨n, hn⟩))
      rw [hm] at hm'
      cases hm'
  | some m =>
    obtain ⟨n, b, hn, hb, rfl⟩ := p.exists_bodyOf_of_bodies hm
    have hid : p.outline.nodes[b.message.id]? = some n := by rw [p.id_eq_of_bodyOf hn hb, hn]
    rw [hn, Option.bind_some, Option.bind_some, Outline.link_eq hid]

/-- The bodies are stored under their own ids. -/
lemma keyed_bodies : IdMap.Keyed Message.id p.assembly.bodies := by
  intro id m hm
  obtain ⟨n, b, hn, hb, rfl⟩ := p.exists_bodyOf_of_bodies hm
  rw [Outline.id_link, p.id_eq_of_bodyOf hn hb]

/-- The tree is that of the bodies. -/
lemma tree_eq : p.tree = Tree.ofIdMap p.assembly.bodies p.outline.current := by
  rw [tree, Tree.ofMessages, IdMap.collect_values p.keyed_bodies]

end Pass

/-- What the outline and the calls of a pass have to do with a message of the tree. -/
structure Sourced (conversation : String) (o : Outline) (made : List Call) (n : Node) (m : Message) :
    Prop where
  /-- The message has the position that the outline gives it. -/
  position_eq : m.position = n.position
  /-- The message has the parent that the outline gives it, or a link on a circle was cut. -/
  parent_eq : m.parent = n.parent ∨ Circular o.parentOf m.id ∧ m.parent = none
  /-- The rest was sent by the remote store, or returned by the cache under the right fingerprint. -/
  exists_source : ∃ src : Message, SameBody src m ∧
    ((∃ ids reply, .bodies conversation ids (.ok reply) ∈ made ∧ src ∈ reply) ∨
      ∃ records r, .read conversation (.ok records) ∈ made ∧ r ∈ records ∧
        r.message = src ∧ r.fingerprint = n.fingerprint)

/-- The tree of a differential pass has the ids of the outline that was asked for first. Each of its
messages has the position and the parent that the outline gives it, unless its parent link lay on a circle
and was cut; and the rest of it, except for the list of children, was sent by the remote store, or returned
by the cache in a record with the fingerprint that the outline gives. -/
theorem exists_source_of_refresh {s s' : Stores ρ κ} {conversation : String} {t : Tree}
    {report : Report} (h : s.refresh conversation = (.ok (t, report), s'))
    (hmode : report.mode = .differential) :
    ∃ (o : Outline) (made : List Call),
      s'.calls = s.calls ++ .outline conversation (.ok o) :: made ∧
      (∀ id, t.contains id ↔ id ∈ o.nodes) ∧
      ∀ id m, t.get? id = some m →
        m.id = id ∧ ∃ n : Node, o.nodes[id]? = some n ∧ Sourced conversation o made n m := by
  obtain ⟨p, rfl⟩ := exists_pass_of_refresh h hmode
  obtain ⟨hread, hstocked, hsupplied, hcached, hchecked, hend⟩ := p.calls_isPrefix
  obtain ⟨made, hmade⟩ :=
    hread.trans (hstocked.trans (hsupplied.trans (hcached.trans (hchecked.trans hend))))
  refine ⟨p.outline, made, ?_, fun id => ?_, fun id m hm => ?_⟩
  · rw [← hmade, p.asked_eq, List.append_assoc]
    rfl
  · rw [p.tree_eq, ← p.mem_bodies_iff, ← Tree.mem_ofIdMap_iff]
    rfl
  · rw [p.tree_eq] at hm
    obtain ⟨body, hbody, hparent, heq⟩ := Tree.exists_of_get?_ofIdMap hm
    obtain ⟨n, b, hn, hb, rfl⟩ := p.exists_bodyOf_of_bodies hbody
    obtain ⟨src, hsrc, horigin⟩ := p.exists_source_of_bodyOf hn hb
    obtain rfl : b.message.id = id := p.id_eq_of_bodyOf hn hb
    have hid : m.id = b.message.id := by
      rw [heq]
      exact Outline.id_link _ _
    rw [p.parentIn_bodies, Outline.link_eq hn] at hparent
    refine ⟨hid, n, hn, ?_, ?_, src, ?_, ?_⟩
    · rw [heq, Outline.link_eq hn]
    · rwa [hid]
    · refine (hsrc.trans (Outline.sameBody_link p.outline b.message)).trans ?_
      rw [heq]
      rfl
    · rcases horigin with ⟨ids, reply, hnoted, hmem⟩ | ⟨records, r, hnoted, hr⟩
      · exact Or.inl ⟨ids, reply, hnoted.mem hmade.symm, hmem⟩
      · exact Or.inr ⟨records, r, hnoted.mem hmade.symm, hr⟩

/-- Synchronising succeeds if it is found to have reported how it was done. -/
lemma exists_refresh_of_mode {s : Stores ρ κ} {conversation : String} {mode : Mode}
    (h : (s.refresh conversation).1.toOption.map (fun outcome => outcome.2.mode) = some mode) :
    ∃ t report, s.refresh conversation = (.ok (t, report), (s.refresh conversation).2) ∧
      report.mode = mode := by
  cases hreply : (s.refresh conversation).1 with
  | error e =>
    rw [hreply] at h
    cases h
  | ok outcome =>
    rw [hreply] at h
    exact ⟨outcome.1, outcome.2, Prod.ext hreply rfl, Option.some.inj h⟩

/-- Two messages that name each other as parents, one of which is cached. -/
def circle : Stores Remote.Archive Cache.Memory where
  remote := (∅ : Remote.Archive).insert "c"
    ⟨IdMap.collect Message.id
      [{ Message.ask "first" "a" 1 with parent := some "b" },
        { Message.ask "second" "b" 2 with parent := some "a" }], none⟩
  cache := ({} : Cache.Memory).written [Record.own "c" (Message.ask "first" "a" 1) 0]

/-- Messages in a circle, one of them cached and the other fetched, have such sources. -/
theorem exists_source_of_refresh_circle :
    ∃ t report s', circle.refresh "c" = (.ok (t, report), s') ∧ report.mode = .differential ∧
      ∃ (o : Outline) (made : List Call),
        s'.calls = circle.calls ++ .outline "c" (.ok o) :: made ∧
        (∀ id, t.contains id ↔ id ∈ o.nodes) ∧
        ∀ id m, t.get? id = some m →
          m.id = id ∧ ∃ n : Node, o.nodes[id]? = some n ∧ Sourced "c" o made n m := by
  have hdifferential : (circle.refresh "c").1.toOption.map (fun outcome => outcome.2.mode) =
      some .differential := by decide +kernel
  obtain ⟨t, report, hrefresh, hmode⟩ := exists_refresh_of_mode hdifferential
  exact ⟨_, _, _, hrefresh, hmode, exists_source_of_refresh hrefresh hmode⟩

end Stores

end DialogueSync.Client
