import DialogueSync.Remote.Basic
import DialogueSync.Tree.Edit

/-!
# Archives

The remote store in its plainest form: a tree for each conversation. Every answer is read off the tree, a
conversation without a tree is not found, and saving puts the tree of the saved history in its place.
-/

namespace DialogueSync.Remote

/-- A tree for each conversation. -/
abbrev Archive := IdMap Tree

namespace Archive

/-- Asks the tree of a conversation. -/
def ask {α : Type} (a : Archive) (conversation : String) (question : Tree → α) : Except Failure α :=
  match a[conversation]? with
  | some t => .ok (question t)
  | none => .error (.unknownConversation conversation)

/-- The archive with the tree of a history in the place of a conversation. -/
def store (a : Archive) (conversation : String) (h : History) : Archive :=
  a.insert conversation (Tree.ofHistory h)

/-- What is asked after storing a history is answered from its tree. -/
@[simp] theorem ask_store {α : Type} (a : Archive) (conversation : String) (h : History)
    (question : Tree → α) :
    (a.store conversation h).ask conversation question = .ok (question (Tree.ofHistory h)) := by
  simp [ask, store]

end Archive

instance : Remote Archive where
  outline conversation a := (a.ask conversation Tree.outline, a)
  bodies conversation ids a := (a.ask conversation fun t => ids.filterMap t.get?, a)
  snapshot conversation a := (a.ask conversation Tree.snapshot, a)
  save conversation request a := (.ok (), a.store conversation request.history)

end DialogueSync.Remote
