import DialogueSync.Json.Mark
import DialogueSync.Json.Shape

/-!
# Reading JSON texts

A text is read from left to right with a shape in hand. Each mark is handed, as soon as it is complete, to
the stack of arrays and objects that are still open, and reading stops at the first fault: the text turns
out not to be JSON, or it is JSON so far but of another shape. What is passed over only has to be JSON; in
it numbers may be of any size, halves of pairs may stand alone, and arrays and objects may be nested to any
depth, whereas no more than 127 of those that are kept may be open at a time. Once a whole value has been
read, only white space may follow.
-/

namespace DialogueSync.Json

/-- Why a text cannot be read. -/
inductive Fault where
  /-- It is not JSON. -/
  | malformed
  /-- It is JSON up to a value or the end of an object, where another shape was expected. -/
  | mismatch
deriving DecidableEq, Repr

/-! ### Open arrays and objects -/

/-- An array or object that is still open; what it holds so far is kept latest first. -/
inductive Frame where
  /-- An array of items of a shape. -/
  | array (item : Shape) (items : List Json)
  /-- An array that stands for an object, before the values of some of the fields. -/
  | row (left : List (String × Bool × Shape)) (fields : List (String × Json))
  /-- An object of a shape. -/
  | object (shape : Shape) (fields : List (String × Json))
  /-- An object behind the name of its next field, which is absent if the field is passed over. -/
  | field (shape : Shape) (fields : List (String × Json)) (name : Option String)
  /-- An object that stands for one of some names. -/
  | choice (names : List String)
  /-- An object that stands for a name, behind the name. -/
  | chosen (name : String)

namespace Frame

/-- What an opening bracket opens where a value of some shape is expected. -/
def ofArray? : Shape → Option Frame
  | .free => some (array .free [])
  | .ignored => some (array .ignored [])
  | .list item => some (array item [])
  | .record fields => some (row fields [])
  | .optional shape => ofArray? shape
  | _ => none

/-- What an opening brace opens where a value of some shape is expected. -/
def ofObject? : Shape → Option Frame
  | .free => some (object .free [])
  | .ignored => some (object .ignored [])
  | .dict item => some (object (.dict item) [])
  | .record fields => some (object (.record fields) [])
  | .choice names => some (choice names)
  | .optional shape => ofObject? shape
  | _ => none

/-- The shape of the next item of an array, if there may be one. -/
def item? : Frame → Option Shape
  | array item _ => some item
  | row ((_, _, shape) :: _) _ => some shape
  | _ => none

/-- The value of an array that is closed now. -/
def closeArray : Frame → Except Fault Json
  | array _ items => .ok (.arr items.reverse)
  | row left fields => if Shape.holdsRequired left [] then .ok (.obj fields.reverse) else .error .mismatch
  | _ => .error .malformed

/-- The value of an object that is closed now. -/
def closeObject : Frame → Except Fault Json
  | object shape fields =>
    if shape.isComplete fields then .ok (.obj fields.reverse) else .error .mismatch
  | chosen name => .ok (.str name)
  | _ => .error .malformed

end Frame

/-! ### Progress -/

/-- What may come next. -/
inductive Expected where
  /-- A value of a shape. -/
  | value (shape : Shape)
  /-- A value, or the end of the array just opened. -/
  | firstItem
  /-- The name of a field, or the end of the object just opened. -/
  | firstName
  /-- The name of a field. -/
  | name
  /-- The colon before a value of a shape. -/
  | colon (shape : Shape)
  /-- A comma or the end of the array or object. -/
  | more
  /-- Nothing: the value is complete. -/
  | nothing (value : Json)

/-- The open arrays and objects, innermost first, and what may come next. -/
structure Progress where
  /-- The open arrays and objects. -/
  frames : List Frame
  /-- What may come next. -/
  expected : Expected

/-- How many arrays and objects of which something is kept may be open at a time. -/
def maxDepth : Nat := 127

namespace Progress

/-- Puts a complete value into the innermost open array or object. -/
def put (frames : List Frame) (j : Json) : Except Fault Progress :=
  match frames, j with
  | [], j => .ok ⟨[], .nothing j⟩
  | .array item items :: rest, j => .ok ⟨.array item (j :: items) :: rest, .more⟩
  | .row ((name, _, _) :: left) fields :: rest, j => .ok ⟨.row left ((name, j) :: fields) :: rest, .more⟩
  | .field shape fields (some name) :: rest, j =>
    .ok ⟨.object shape ((name, j) :: fields) :: rest, .more⟩
  | .field shape fields none :: rest, _ => .ok ⟨.object shape fields :: rest, .more⟩
  | .choice _ :: rest, .str name => .ok ⟨.chosen name :: rest, .colon .null⟩
  | .chosen name :: rest, _ => .ok ⟨.chosen name :: rest, .more⟩
  | _, _ => .error .malformed

/-- What is wrong with a value that is not of the shape expected. Where one of some names is expected,
nothing but a text or an object counts as a value at all. -/
def refuse : Shape → Mark → Fault
  | .choice _, .text _ => .mismatch
  | .choice _, _ => .malformed
  | _, _ => .mismatch

/-- Takes in a text, a number or a word where a value of a shape is expected. -/
def scalar (frames : List Frame) (shape : Shape) (mark : Mark) (j : Option Json) : Except Fault Progress :=
  match j with
  | some j => if shape.fits j then put frames j else .error (refuse shape mark)
  | none => if shape.isIgnored then put frames .null else .error .malformed

/-- Opens an array or object where a value of a shape is expected. -/
def enter (frames : List Frame) (shape : Shape) (mark : Mark) (frame : Option Frame) (next : Expected) :
    Except Fault Progress :=
  match frame with
  | none => .error (refuse shape mark)
  | some frame =>
    if !shape.isIgnored && maxDepth ≤ frames.length then .error .malformed
    else
      match frame with
      | .choice names => .ok ⟨frame :: frames, .value (.tag names)⟩
      | _ => .ok ⟨frame :: frames, next⟩

/-- Takes in a mark where a value of a shape is expected. -/
def value (frames : List Frame) (shape : Shape) (mark : Mark) : Except Fault Progress :=
  match mark with
  | .scalar j => scalar frames shape mark j
  | .text s => scalar frames shape mark (s.map Json.str)
  | .openArray => enter frames shape mark (Frame.ofArray? shape) .firstItem
  | .openObject => enter frames shape mark (Frame.ofObject? shape) .firstName
  | _ => .error .malformed

/-- Takes in the name of the next field of an object. -/
def name (shape : Shape) (fields : List (String × Json)) (rest : List Frame) (s : Option String) :
    Except Fault Progress :=
  match s with
  | none =>
    if shape.isIgnored then .ok ⟨.field shape fields none :: rest, .colon .ignored⟩
    else .error .malformed
  | some s =>
    match shape.field? s with
    | none => .ok ⟨.field shape fields none :: rest, .colon .ignored⟩
    | some item =>
      if !shape.allowsRepeats && fields.any (fun f => f.1 = s) then .error .mismatch
      else .ok ⟨.field shape fields (some s) :: rest, .colon item⟩

/-- Takes in one mark. -/
def step (p : Progress) (mark : Mark) : Except Fault Progress :=
  match p.expected, p.frames, mark with
  | .value shape, frames, mark => value frames shape mark
  | .firstItem, frame :: rest, .closeArray => do put rest (← frame.closeArray)
  | .firstItem, frame :: rest, mark =>
    match frame.item? with
    | some shape => value (frame :: rest) shape mark
    | none => .error .malformed
  | .firstName, frame :: rest, .closeObject => do put rest (← frame.closeObject)
  | .firstName, .object shape fields :: rest, .text s => name shape fields rest s
  | .name, .object shape fields :: rest, .text s => name shape fields rest s
  | .colon shape, frames, .colon => .ok ⟨frames, .value shape⟩
  | .more, .object shape fields :: rest, .comma => .ok ⟨.object shape fields :: rest, .name⟩
  | .more, frame :: rest, .comma =>
    match frame.item? with
    | some shape => .ok ⟨frame :: rest, .value shape⟩
    | none => .error .malformed
  | .more, frame :: rest, .closeArray => do put rest (← frame.closeArray)
  | .more, frame :: rest, .closeObject => do put rest (← frame.closeObject)
  | _, _, _ => .error .malformed

/-- The value, if it is complete. -/
def value? (p : Progress) : Option Json :=
  match p.expected with
  | .nothing j => some j
  | _ => none

end Progress

/-! ### Texts -/

/-- Reads on from a given state to the end of the text. -/
def readFrom (mode : Mode) (progress : Progress) : List Char → Except Fault Json
  | [] =>
    match mode.finish? with
    | none => .error .malformed
    | some marks => do
      match (← marks.foldlM Progress.step progress).value? with
      | some j => return j
      | none => throw .malformed
  | c :: rest => do
    let progress' ← (mode.step c).1.foldlM Progress.step progress
    match (mode.step c).2 with
    | some mode' => readFrom mode' progress' rest
    | none => throw .malformed

/-- Reads a text as a value of a shape; of an object with known fields only these are there. -/
def read (shape : Shape) (s : String) : Except Fault Json :=
  readFrom .between ⟨[], .value shape⟩ s.toList

/-- The value that the whole text states. -/
def parse? (s : String) : Option Json :=
  (read .free s).toOption

end DialogueSync.Json
