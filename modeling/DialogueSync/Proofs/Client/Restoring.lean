import DialogueSync.Proofs.Client.Agreement
import DialogueSync.Proofs.Client.Refusal
import DialogueSync.Proofs.Tree.Loading
import DialogueSync.Proofs.Tree.Reachable

/-!
# Restoring a tree from what is written of it

A tree is written as a history, or as an outline with all bodies. Building it again looks for circles, derives the
children and chooses the selected message anew if it is not there. On the messages of a linked tree the first two do
nothing, so that the tree comes back with its selection repaired (`restorable_of_linked`): also if messages wait for
their parents, or if nothing is selected.

Trees that come about by building and by edits are linked, and so are those that a session shows, where the bodies
change while responses come in.
-/

namespace DialogueSync.Client

open DialogueSync.Tree (Linked Settled)
open Stores (treeOf treeOf_eq_repair)

variable {t : Tree}

/-- Nothing of a tree is lost in its written forms, which give it back with its selection repaired. -/
structure Restorable (t : Tree) : Prop where
  /-- The history gives the tree back. -/
  ofHistory : Tree.ofHistory t.toHistory = t.repair
  /-- The messages of the history may be read in any order. -/
  ofMessages : ∀ ms : List Message, ms.Perm t.toHistory.messages.values → Tree.ofMessages ms t.current = t.repair
  /-- The outline with all bodies gives the tree back. -/
  snapshot : treeOf t.snapshot = t.repair
  /-- The bodies may come in any order, more than once, and with other links than those of the tree. -/
  bodies : ∀ bodies : List Message, t.Supplies t.messages.keys bodies → (∀ m ∈ bodies, t.contains m.id) →
    treeOf ⟨t.outline, bodies⟩ = t.repair
  /-- The tree that is given back has the outline of the repaired tree. -/
  outline : (treeOf t.snapshot).outline = t.repair.outline

lemma restorable_of_linked (h : Linked t.messages) : Restorable t := by
  have hcollect := IdMap.collect_values h.keyed
  obtain ⟨hsupplies, hmem⟩ := Tree.supplies_snapshot h.keyed
  have hsnapshot : treeOf t.snapshot = t.repair := treeOf_eq_repair h rfl hsupplies hmem
  constructor
  case ofHistory => exact h.ofMessages_eq_repair hcollect
  case ofMessages =>
    intro ms hperm
    refine h.ofMessages_eq_repair ?_
    have hids : (t.messages.values.map Message.id).Nodup := by
      rw [IdMap.map_values h.keyed]
      exact Std.ExtTreeMap.nodup_keys
    rw [Tree.collect_eq_of_perm hids hperm, hcollect]
  case snapshot => exact hsnapshot
  case bodies => exact fun bodies hbodies hmem => treeOf_eq_repair h rfl hbodies hmem
  case outline => rw [hsnapshot]

variable {ρ κ : Type} [Remote ρ] [Cache κ]

/-- Every tree that comes about by building one from any messages and by any edits, refused or not, is restored from
its written forms, with its selection repaired, which changes nothing if that was settled last. The tree that a session
shows is restored from them too, whatever has happened in the session. -/
theorem restorable_of_reachable :
    (∀ t, Tree.Reachable t → Restorable t ∧ (Settled t → t.repair = t)) ∧
      ∀ s : Session ρ κ, s.Reachable → Restorable s.tree := by
  constructor
  · exact fun t ht => ⟨restorable_of_linked ht.linked, fun hsettled => hsettled.wellFormed.repair_eq_self⟩
  · exact fun s hs => restorable_of_linked hs.sound.linked

/-- A question and its answer in an empty tree, of which nothing has been selected. -/
def unselected : Tree :=
  (({} : Tree).edit (.insert none (Message.ask "Why?" "a" 1))).edit (.insert (some "a") (Message.await "model" "b" 2))

/-- The tree of which nothing was selected comes back with the answer selected, and the one with a message that waits
for its parent as it is; the tree of a session in which a response is coming in is restored too. -/
theorem restorable_unselected :
    Restorable unselected ∧ unselected.current = none ∧
      (Tree.ofHistory unselected.toHistory).current = some "b" ∧
      Restorable Tree.circleAndWaiting ∧ Tree.circleAndWaiting.repair = Tree.circleAndWaiting ∧
      Restorable (Session.asking.after (.receive "b" { content := some "Because" })).tree := by
  obtain ⟨htrees, hsessions⟩ := restorable_of_reachable (ρ := Remote.Archive) (κ := Cache.Memory)
  obtain ⟨hunselected, -⟩ := htrees unselected ((Tree.Reachable.empty.edit _).edit _)
  obtain ⟨hwaiting, hsettled⟩ := htrees Tree.circleAndWaiting (.ofMessages _ _)
  have hasking : Session.asking.Reachable := (((Session.Reachable.start _ _).after _).after _).after _
  exact ⟨hunselected, by decide +kernel, by decide +kernel, hwaiting, hsettled (.ofMessages _ _),
    hsessions _ (hasking.after _)⟩

end DialogueSync.Client
