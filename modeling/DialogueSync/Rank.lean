import Std.Data.ExtTreeSet

/-!
# Sibling order

Messages under one parent are shown in the order of their ranks: by position, where a message without
one comes first, then by creation time, then by id. Two ranks compare as equal only if they are equal,
so sorting a list of ids has one possible answer.
-/

namespace DialogueSync

/-- The fields that decide where a message stands among its siblings. -/
structure Rank where
  /-- The position given to the message, if it has one. -/
  position : Option Int64
  /-- When the message was created, in milliseconds since the epoch. -/
  createdAt : Int64
  /-- The id of the message, which breaks the remaining ties. -/
  id : String
deriving DecidableEq, Repr

namespace Rank

/-- Position first, none before any, then creation time, then id. -/
instance : Ord Rank where
  compare := compareLex (compareOn position) (compareLex (compareOn createdAt) (compareOn id))

instance : Std.TransOrd Rank :=
  inferInstanceAs (Std.TransCmp
    (compareLex (compareOn position) (compareLex (compareOn createdAt) (compareOn id))))

/-- Only equal ranks compare as equal. -/
instance : Std.LawfulEqOrd Rank where
  eq_of_compare {a b} h := by
    have h' : (compare a.position b.position).then
        ((compare a.createdAt b.createdAt).then (compare a.id b.id)) = .eq := h
    simp only [Ordering.then_eq_eq, Std.LawfulEqOrd.compare_eq_iff_eq] at h'
    cases a
    cases b
    simp_all

/-- The ids of a list that have a rank, each once, in the order of their ranks. -/
def sortIds (rankOf : String → Option Rank) (ids : List String) : List String :=
  (Std.ExtTreeSet.ofList (ids.filterMap rankOf)).toList.map Rank.id

/-- An id comes out exactly if it is that of a rank which an id of the list has. -/
theorem mem_sortIds {rankOf : String → Option Rank} {ids : List String} {id : String} :
    id ∈ sortIds rankOf ids ↔ ∃ i ∈ ids, ∃ r, rankOf i = some r ∧ r.id = id := by
  simp [sortIds, Std.ExtTreeSet.mem_toList, Std.ExtTreeSet.mem_ofList]
  grind

end Rank

end DialogueSync
