import DialogueSync.Tree.Navigate

/-!
# Building trees

A tree from loose messages. Of two messages with one id the later one counts; circles of parent links are
cut, the children are derived, and the selected message is chosen anew if it is not there.
-/

namespace DialogueSync.Tree

/-- The tree of messages that are already under their own ids. -/
def ofIdMap (ms : IdMap Message) (current : Option String) : Tree :=
  repair ⟨relinkAll (cutCycles ms), current⟩

/-- The tree of a list of messages. -/
def ofMessages (ms : List Message) (current : Option String) : Tree :=
  ofIdMap (IdMap.collect Message.id ms) current

/-- The tree of a written history. -/
def ofHistory (h : History) : Tree :=
  ofMessages h.messages.values h.current

end DialogueSync.Tree
