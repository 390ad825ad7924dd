import DialogueSync.Json.Basic

/-!
# Shapes of JSON values

A shape says which JSON values are expected at a place. Whoever reads a text with a shape in hand can say
at once that a value has another shape, and can pass over what nobody has asked for.
-/

namespace DialogueSync.Json

/-- What is expected of a JSON value. -/
inductive Shape where
  /-- Any value. -/
  | free
  /-- Any value, of which nothing is kept. -/
  | ignored
  /-- Null. -/
  | null
  /-- A truth value. -/
  | bool
  /-- A whole number between two bounds. -/
  | int (low high : Int)
  /-- A number. -/
  | number
  /-- A text. -/
  | text
  /-- A text that is one of some names. -/
  | tag (names : List String)
  /-- One of some names, either as a text or as the only field of an object, whose value is null. -/
  | choice (names : List String)
  /-- A value of a shape, or null. -/
  | optional (shape : Shape)
  /-- An array of values of a shape. -/
  | list (item : Shape)
  /-- An object with any names, whose values are of a shape. -/
  | dict (item : Shape)
  /-- An object with known fields, each written at most once; a field is given by its name, whether it must
  be there, and its shape. Other fields are passed over. An array of the values of the fields, in their
  order, stands for such an object. -/
  | record (fields : List (String × Bool × Shape))

namespace Shape

/-- A field that must be there. -/
def required (name : String) (shape : Shape) : String × Bool × Shape :=
  (name, true, shape)

/-- A field that may be missing. -/
def missable (name : String) (shape : Shape) : String × Bool × Shape :=
  (name, false, shape)

/-- Whether nothing is kept of the value. -/
def isIgnored : Shape → Bool
  | ignored => true
  | _ => false

/-- Whether a value that is neither an array nor an object has the shape. -/
def fits : Shape → Json → Bool
  | free, _ => true
  | ignored, _ => true
  | null, .null => true
  | bool, .bool _ => true
  | int low high, .int n => low ≤ n && n ≤ high
  | number, .int _ => true
  | number, .float _ => true
  | text, .str _ => true
  | tag names, .str s => names.contains s
  | choice names, .str s => names.contains s
  | optional _, .null => true
  | optional shape, j => shape.fits j
  | _, _ => false

/-- The shape of the field with a name, if the field is kept. -/
def field? : Shape → String → Option Shape
  | free, _ => some free
  | dict item, _ => some item
  | record fields, name => (fields.find? fun f => f.1 = name).map fun f => f.2.2
  | _, _ => none

/-- Whether a field that was written before may be written again, where the later value counts. -/
def allowsRepeats : Shape → Bool
  | record _ => false
  | _ => true

/-- Whether the fields with values hold all that must be there. -/
def holdsRequired (fields : List (String × Bool × Shape)) (given : List (String × Json)) : Bool :=
  fields.all fun f => !f.2.1 || given.any fun g => g.1 = f.1

/-- Whether an object of the shape may end with the given fields. -/
def isComplete : Shape → List (String × Json) → Bool
  | record fields, given => holdsRequired fields given
  | _, _ => true

end Shape

end DialogueSync.Json
