/-!
# JSON values

A JSON value as the library reads and writes it. Numbers are either whole numbers that fit in 64 bits,
with or without a sign, or floating-point numbers; the fields of an object keep the order in which they
were written.
-/

namespace DialogueSync

/-- A JSON value. -/
inductive Json where
  | null
  | bool (b : Bool)
  | int (n : Int)
  | float (x : Float)
  | str (s : String)
  | arr (items : List Json)
  | obj (fields : List (String × Json))
deriving Inhabited

namespace Json

/-- A floating-point number as a JSON value; what is not finite has no written form and becomes null. -/
def ofFloat (x : Float) : Json :=
  if x.isFinite then .float x else .null

/-- Puts a field in its place among fields that are in the order of their names; of two fields with one
name the later one counts. -/
def placeField (name : String) (value : Json) : List (String × Json) → List (String × Json)
  | [] => [(name, value)]
  | (n, v) :: rest =>
    match compare name n with
    | .lt => (name, value) :: (n, v) :: rest
    | .eq => (name, value) :: rest
    | .gt => (n, v) :: placeField name value rest

mutual

/-- The value with the fields of every object in the order of their names, each name once. -/
def canonical : Json → Json
  | .arr items => .arr (canonicalItems items)
  | .obj fields => .obj (canonicalFields [] fields)
  | j => j

/-- The canonical forms of the items of an array. -/
def canonicalItems : List Json → List Json
  | [] => []
  | j :: rest => canonical j :: canonicalItems rest

/-- Adds the canonical forms of further fields to the fields placed so far. -/
def canonicalFields (placed : List (String × Json)) : List (String × Json) → List (String × Json)
  | [] => placed
  | (n, v) :: rest => canonicalFields (placeField n (canonical v) placed) rest

end

end Json

end DialogueSync
