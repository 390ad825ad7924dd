import Std.Data.ExtTreeMap

/-!
# Maps keyed by ids

Everything the library looks up by an id lives in one kind of map, ordered by the text of the id. Two
such maps with the same entries are equal, so statements about stored data never mention how it was
built, and every listing of a map comes out in the order of its ids.
-/

namespace DialogueSync

/-- A finite map from ids, listed in the order of the ids. -/
abbrev IdMap (α : Type) := Std.ExtTreeMap String α

namespace IdMap

variable {α : Type}

/-- The values of a list under the ids they carry; of two values with one id the later one counts. -/
def collect (idOf : α → String) (xs : List α) : IdMap α :=
  Std.ExtTreeMap.ofList (xs.map fun x => (idOf x, x))

/-- Nothing is collected from no value. -/
@[simp] theorem collect_nil (idOf : α → String) : collect idOf [] = ∅ := by
  simp [collect]

/-- An id is in the map exactly if a value of the list carries it. -/
theorem mem_collect {idOf : α → String} {xs : List α} {id : String} :
    id ∈ collect idOf xs ↔ ∃ x ∈ xs, idOf x = id := by
  simp [collect, Std.ExtTreeMap.mem_ofList]

end IdMap

end DialogueSync
