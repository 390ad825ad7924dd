import DialogueSync.Proofs.Client.Failure
import DialogueSync.Proofs.Client.Provenance
import DialogueSync.Remote.Archive

/-!
# What a full fetch brings

A snapshot is one reply, but its outline and its bodies need not agree. The tree of a full fetch consists of the
messages that the snapshot has bodies for, whatever the outline says, and with them the records of the
conversation in the cache are replaced, if nothing fails. So a message of the outline is in the tree, and in the
cache under the fingerprint of the outline, exactly if the snapshot delivers its body (`contains_iff_delivers`).
-/

namespace DialogueSync.Client

open Cache (Memory Record Scripted)

/-- The snapshot has a body for the message. -/
def Delivers (full : Snapshot) (id : String) : Prop :=
  ∃ m ∈ full.bodies, m.id = id

/-- The call is to drop or to write records, and fails. -/
def Call.FailsToWrite : Call → Prop
  | .put _ (.error _) | .drop _ (.error _) => True
  | .put _ (.ok _) | .drop _ (.ok _) | .outline .. | .bodies .. | .snapshot .. | .save .. | .read ..
  | .clear .. => False

namespace Stores

variable {ρ : Type} {conversation : String}

/-- A message is in the tree of a snapshot exactly if its body is delivered. -/
lemma mem_treeOf_iff {full : Snapshot} {id : String} :
    id ∈ (treeOf full).messages ↔ Delivers full id := by
  rw [treeOf, Tree.ofMessages, Tree.mem_ofIdMap_iff, IdMap.mem_collect]
  simp [Delivers]

/-! ### Writing that does not fail -/

section Writing

variable {s : Stores ρ (Scripted Memory)}

/-- Between two states nothing failed that drops or writes records. -/
def WritesAll {κ : Type} (s s' : Stores ρ κ) : Prop :=
  ∀ call, Noted s s' call → ¬ call.FailsToWrite

/-- A batch that is written without failing is in the cache. -/
lemma inner_callPut {records : List Record} {t : Stores ρ (Scripted Memory)}
    (h : s.callPut records = (.ok (), t)) : t.cache.inner = s.cache.inner.written records := by
  have hreply : (Cache.put records s.cache).1 = .ok () := congrArg Prod.fst h
  obtain ⟨hput, hinner⟩ := of_pass_ok hreply
  rw [← show (Cache.put records s.cache).2 = t.cache from congrArg (fun reply => reply.2.cache) h]
  refine hinner.trans ?_
  by_cases hfits : (s.cache.inner.written records).Fits
  · rw [Memory.cache_put_of_fits hfits]
  · rw [Memory.cache_put_of_not_fits hfits] at hput
    cases hput

/-- The records of a conversation that are dropped without failing are gone. -/
lemma inner_callDrop_of_ok {t : Stores ρ (Scripted Memory)}
    (h : s.callDrop conversation = (.ok (), t)) : t.cache.inner = s.cache.inner.drop conversation := by
  have hreply : (Cache.drop conversation s.cache).1 = .ok () := congrArg Prod.fst h
  rw [← show (Cache.drop conversation s.cache).2 = t.cache from congrArg (fun reply => reply.2.cache) h]
  exact (of_pass_ok hreply).2

/-- A batch is in the cache when it has been stored and nothing failed. -/
lemma inner_store (hs : s.degraded = false) {records : List Record}
    (hall : s.WritesAll (s.store records).2) :
    (s.store records).2.cache.inner = s.cache.inner.written records := by
  by_cases hnil : records = []
  · rw [hnil, Memory.written_nil, store, if_neg (by simp [hs])]
    rfl
  · have hnoted : Noted s (s.callPut records).2 (.put records (s.callPut records).1) :=
      ⟨_, rfl, List.mem_singleton_self _⟩
    have hput := hall _ (hnoted.mono List.prefix_rfl (calls_callPut_isPrefix hs hnil))
    cases hcall : s.callPut records with
    | mk reply t =>
      rw [hcall] at hput
      cases reply with
      | error e => exact absurd trivial hput
      | ok _ =>
        rw [store, if_neg (by simp [hs]), if_neg (by simpa using hnil), hcall]
        exact inner_callPut hcall

/-- The records of a conversation are those of a batch when they have been replaced and nothing failed. -/
lemma inner_overwrite (hs : s.degraded = false) {records : List Record}
    (hall : s.WritesAll (s.overwrite conversation records).2) :
    (s.overwrite conversation records).2.cache.inner =
      (s.cache.inner.drop conversation).written records := by
  have hnoted : Noted s (s.callDrop conversation).2 (.drop conversation (s.callDrop conversation).1) :=
    ⟨_, rfl, List.mem_singleton_self _⟩
  have hdrop := hall _ (hnoted.mono List.prefix_rfl (calls_callDrop_isPrefix hs conversation records))
  cases hcall : s.callDrop conversation with
  | mk reply t =>
    have hbefore : s.calls <+: t.calls := by
      obtain ⟨made, hmade, -⟩ := hnoted
      rw [hcall] at hmade
      exact ⟨made, hmade.symm⟩
    have hdegraded : t.degraded = false := by
      obtain ⟨-, rfl⟩ := Prod.mk.inj hcall
      exact hs
    rw [hcall] at hdrop
    cases reply with
    | error e => exact absurd trivial hdrop
    | ok _ =>
      have heq : s.overwrite conversation records = t.store records := by
        rw [overwrite, discard, if_neg (by simp [hs]), hcall]
      rw [heq] at hall ⊢
      rw [inner_store hdegraded fun call h => hall call (h.mono hbefore List.prefix_rfl),
        inner_callDrop_of_ok hcall]

end Writing

/-! ### Full fetches -/

variable [Remote ρ] {s s' : Stores ρ (Scripted Memory)} {tree : Tree} {report : Report}

/-- Synchronising that reports a full fetch ends with one. -/
lemma exists_refreshWhole_of_refresh (h : s.refresh conversation = (.ok (tree, report), s'))
    (hmode : report.mode = .full) :
    ∃ t : Stores ρ (Scripted Memory), s.calls <+: t.calls ∧
      t.refreshWhole conversation = (.ok (tree, report), s') := by
  rcases refresh_cases h with ⟨-, p, hreply⟩ | ⟨-, e, failed, hpass, hwhole⟩ | ⟨-, hwhole⟩
  · obtain ⟨-, rfl⟩ := Prod.mk.inj (Except.ok.inj hreply)
    cases hmode
  · obtain ⟨made, hharmless⟩ := harmless_of_refreshChanged_error hpass
    exact ⟨failed, ⟨made, hharmless.calls_eq.symm⟩, hwhole⟩
  · exact ⟨s, List.prefix_rfl, hwhole⟩

/-- A full fetch asks for a snapshot, gives its tree, and replaces the records of the conversation. -/
lemma exists_snapshot_of_refreshWhole {κ : Type} [Cache κ] {s s' : Stores ρ κ}
    (h : s.refreshWhole conversation = (.ok (tree, report), s')) :
    ∃ full asked, s.askSnapshot conversation = (.ok full, asked) ∧ tree = treeOf full ∧
      s' = (asked.overwrite conversation
        ((treeOf full).messages.values.map (snapshotRecord conversation full asked.clock))).2 := by
  obtain ⟨e, hreply, -⟩ | ⟨full, asked, hask, hreply, hs'⟩ := refreshWhole_cases h
  · cases hreply
  · exact ⟨full, asked, hask, congrArg Prod.fst (Except.ok.inj hreply), hs'⟩

/-- After the records of a conversation have been replaced by those of a snapshot, there is one for a message of
the outline, under the fingerprint of the outline, exactly if the body is delivered. -/
lemma exists_record_iff {full : Snapshot} (now : Int64) {k : Memory} {id : String} {n : Node}
    (hn : full.outline.nodes[id]? = some n) :
    (∃ r ∈ ((k.drop conversation).written ((treeOf full).messages.values.map
        (snapshotRecord conversation full now))).recordsOf conversation,
      r.id = id ∧ r.fingerprint = n.fingerprint) ↔ Delivers full id := by
  have hkeyed : IdMap.Keyed Message.id (treeOf full).messages :=
    (Tree.wellFormed_ofMessages _ _).toLinked.keyed
  have hget := Memory.getElem?_replaced hkeyed
    (fun m => (rfl : (snapshotRecord conversation full now m).key = ⟨conversation, m.id⟩)) k
  rw [← mem_treeOf_iff]
  constructor
  · rintro ⟨r, hr, rfl, -⟩
    obtain ⟨id, hid⟩ := Memory.mem_recordsOf_iff.mp hr
    rw [hget, Option.map_eq_some_iff] at hid
    obtain ⟨m, hm, rfl⟩ := hid
    rw [show (snapshotRecord conversation full now m).id = id from hkeyed id m hm]
    exact mem_iff_exists_getElem?.mpr ⟨m, hm⟩
  · intro hid
    obtain ⟨m, hm⟩ := mem_iff_exists_getElem?.mp hid
    obtain rfl : m.id = id := hkeyed id m hm
    refine ⟨snapshotRecord conversation full now m, Memory.mem_recordsOf_iff.mpr ⟨m.id, ?_⟩, rfl, ?_⟩
    · rw [hget, hm, Option.map_some]
    · rw [snapshotRecord, hn]
      rfl

/-- A full fetch that succeeds has had a snapshot for a reply, and its tree is that of the snapshot. A message of
the outline is in it exactly if the snapshot delivers the body, and if the cache is in use and no writing has
failed, there is also a record of the message under the fingerprint of the outline exactly then. -/
theorem contains_iff_delivers (h : s.refresh conversation = (.ok (tree, report), s'))
    (hmode : report.mode = .full) :
    ∃ full, Noted s s' (.snapshot conversation (.ok full)) ∧ tree = treeOf full ∧
      (∀ id, id ∈ full.outline.nodes → (tree.contains id ↔ Delivers full id)) ∧
      (s'.degraded = false → s.WritesAll s' → ∀ id n, full.outline.nodes[id]? = some n →
        ((∃ r ∈ s'.cache.inner.recordsOf conversation, r.id = id ∧ r.fingerprint = n.fingerprint) ↔
          Delivers full id)) := by
  obtain ⟨t, ht, hwhole⟩ := exists_refreshWhole_of_refresh h hmode
  obtain ⟨full, asked, hask, rfl, rfl⟩ := exists_snapshot_of_refreshWhole hwhole
  obtain ⟨hcalls, -, -⟩ := askSnapshot_frame hask
  have hsteps : CacheSteps conversation (fun _ => True) asked (asked.overwrite conversation
      ((treeOf full).messages.values.map (snapshotRecord conversation full asked.clock))).2 :=
    (CacheSteps.refl asked).overwrite trivial
  have hnoted : Noted t asked (.snapshot conversation (.ok full)) := ⟨_, hcalls, List.mem_singleton_self _⟩
  refine ⟨full, hnoted.mono ht hsteps.calls_isPrefix, rfl, fun id _ => mem_treeOf_iff, ?_⟩
  intro hdegraded hall id n hn
  have hasked : asked.degraded = false := by
    cases hgiven : asked.degraded with
    | false => rfl
    | true => exact absurd (hsteps.degraded hgiven) (by rw [hdegraded]; exact Bool.false_ne_true)
  have hbefore : s.calls <+: asked.calls := ht.trans ⟨_, hcalls.symm⟩
  rw [inner_overwrite hasked fun call h => hall call (h.mono hbefore List.prefix_rfl)]
  exact exists_record_iff asked.clock hn

instance : DecidablePred Call.FailsToWrite
  | .put _ (.error _) | .drop _ (.error _) => isTrue trivial
  | .put _ (.ok _) | .drop _ (.ok _) | .outline .. | .bodies .. | .snapshot .. | .save .. | .read ..
  | .clear .. => isFalse not_false

/-- A remote store that cannot be asked for the outline, and whose snapshot lacks the body of the answer. -/
def lackingAnswer : Stores (Remote.Scripted Remote.Archive) (Scripted Memory) :=
  let question : Message := { id := "a", role := .user, content := "Why?", createdAt := 1, done := true }
  let answer : Message :=
    { id := "b", parent := some "a", role := .assistant, content := "Because.", createdAt := 2, done := true }
  { remote := {
      inner := ∅
      outlines := [.error (.unreachable "http://localhost" "refused")]
      snapshots := [.ok ⟨(Tree.ofMessages [question, answer] none).outline, [question]⟩] }
    cache := { inner := {} } }

/-- The snapshot without the answer is accepted, and what is there are the messages that it delivers. -/
theorem contains_iff_delivers_lackingAnswer :
    ∃ tree report s', lackingAnswer.refresh "c" = (.ok (tree, report), s') ∧ report.mode = .full ∧
      s'.degraded = false ∧ lackingAnswer.WritesAll s' ∧
      ∃ full, Noted lackingAnswer s' (.snapshot "c" (.ok full)) ∧ tree = treeOf full ∧
        (∀ id, id ∈ full.outline.nodes → (tree.contains id ↔ Delivers full id)) ∧
        ∀ id n, full.outline.nodes[id]? = some n →
          ((∃ r ∈ s'.cache.inner.recordsOf "c", r.id = id ∧ r.fingerprint = n.fingerprint) ↔
            Delivers full id) := by
  have hfull : (lackingAnswer.refresh "c").1.toOption.map (fun outcome => outcome.2.mode) = some .full := by
    decide +kernel
  obtain ⟨tree, report, hrefresh, hmode⟩ := exists_refresh_of_mode hfull
  have hdegraded : (lackingAnswer.refresh "c").2.degraded = false := by decide +kernel
  have hall : lackingAnswer.WritesAll (lackingAnswer.refresh "c").2 := by
    have hnone : ∀ call ∈ (lackingAnswer.refresh "c").2.calls, ¬ call.FailsToWrite := by decide +kernel
    exact fun call hcall => hnone call (hcall.mem (List.nil_append _).symm)
  obtain ⟨full, hnoted, htree, hcontains, hcached⟩ := contains_iff_delivers hrefresh hmode
  exact ⟨_, _, _, hrefresh, hmode, hdegraded, hall, full, hnoted, htree, hcontains, hcached hdegraded hall⟩

/-- Synchronising succeeds, and the tree lacks the answer that stands in the outline. -/
theorem lacksAnswer_of_refresh :
    (lackingAnswer.remote.snapshots.all fun reply => reply.toOption.any fun full =>
      full.outline.nodes.contains "b") ∧
      (lackingAnswer.refresh "c").1.toOption.any fun outcome =>
        outcome.2.mode = .full ∧ outcome.1.contains "b" = false := by
  decide +kernel

end Stores

end DialogueSync.Client
