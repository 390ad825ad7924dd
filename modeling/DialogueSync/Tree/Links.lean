import DialogueSync.Tree.Basic

/-!
# Links

Deriving the lists of children from the parent links, for one message or for all, and cutting parent
links that run in a circle.
-/

namespace DialogueSync.Tree

/-- The rank of the message with this id. -/
def rankIn (ms : IdMap Message) (id : String) : Option Rank :=
  ms[id]?.map Message.rank

/-- The ids of the messages that name `id` as their parent, in sibling order. -/
def childrenIn (ms : IdMap Message) (id : String) : List String :=
  Rank.sortIds (rankIn ms) (ms.filter fun _ m => m.parent = some id).keys

/-- Derives the children of one message. -/
def relink (ms : IdMap Message) (id : String) : IdMap Message :=
  ms.modify id fun m => { m with children := childrenIn ms id }

/-- Derives the children of every message. -/
def relinkAll (ms : IdMap Message) : IdMap Message :=
  ms.map fun id m => { m with children := childrenIn ms id }

/-- Deriving the children of all messages changes nothing else of a message. -/
theorem getElem?_relinkAll (ms : IdMap Message) (id : String) :
    (relinkAll ms)[id]? = ms[id]?.map fun m => { m with children := childrenIn ms id } := by
  simp [relinkAll]

/-- Deriving the children of all messages neither adds nor loses one. -/
@[simp] theorem size_relinkAll (ms : IdMap Message) : (relinkAll ms).size = ms.size := by
  simp [relinkAll]

/-- Deriving the children of all messages leaves the parent links as they are. -/
@[simp] theorem parentIn_relinkAll (ms : IdMap Message) (id : String) :
    parentIn (relinkAll ms) id = parentIn ms id := by
  rw [parentIn, getElem?_relinkAll]
  cases h : ms[id]? <;> simp [parentIn, h]

/-- Deriving the children of one message leaves the parent links as they are. -/
@[simp] theorem parentIn_relink (ms : IdMap Message) (parent id : String) :
    parentIn (relink ms parent) id = parentIn ms id := by
  simp only [parentIn, relink, Std.ExtTreeMap.getElem?_modify]
  split
  next h =>
    obtain rfl := Std.LawfulEqOrd.eq_of_compare h
    cases hm : ms[parent]? <;> simp
  next => rfl

/-- Whether the way up from a message comes back to it. -/
def isOnCycle (ms : IdMap Message) (id : String) : Bool :=
  match parentIn ms id with
  | some parent => (lineage ms ms.size parent).contains id
  | none => false

/-- Makes a message a root if the way up from it comes back to it. -/
def cutAt (ms : IdMap Message) (id : String) : IdMap Message :=
  if isOnCycle ms id then ms.modify id fun m => { m with parent := none } else ms

/-- Cuts every circle of parent links, going through the messages in the order of their ids. -/
def cutCycles (ms : IdMap Message) : IdMap Message :=
  ms.keys.foldl cutAt ms

end DialogueSync.Tree
