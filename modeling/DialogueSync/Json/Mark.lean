import DialogueSync.Json.Number

/-!
# The marks of JSON texts

A JSON text is a row of marks: brackets, commas, colons, texts, numbers and three words. It is read
character by character, and the mode says where the reader stands: between two marks, or in the middle of
one. A mark counts as soon as it is complete: a number when a character comes that cannot belong to it, and
every other mark with its last character.
-/

namespace DialogueSync.Json

/-- The lexical units of a JSON text. -/
inductive Mark where
  | openArray
  | closeArray
  | openObject
  | closeObject
  | comma
  | colon
  /-- A text; absent if half of an escaped pair stands alone in it. -/
  | text (s : Option String)
  /-- A number or one of the three words; absent if it is a number beyond every floating-point number. -/
  | scalar (j : Option Json)

/-! ### Texts -/

/-- Whether the code is the first half of a pair. -/
def isFirstHalf (n : Nat) : Bool :=
  0xD800 ≤ n && n < 0xDC00

/-- Whether the code is the second half of a pair. -/
def isSecondHalf (n : Nat) : Bool :=
  0xDC00 ≤ n && n < 0xE000

/-- The characters that some codes, latest first, spell before the characters that are spelled already. A
character beyond the first 65536 is two halves in order, and no half stands alone. -/
def spell : List Nat → List Char → Option (List Char)
  | [], spelled => some spelled
  | [n], spelled => if isFirstHalf n || isSecondHalf n then none else some (Char.ofNat n :: spelled)
  | n :: m :: rest, spelled =>
    if isSecondHalf n && isFirstHalf m then
      spell rest (Char.ofNat (0x10000 + (m - 0xD800) * 0x400 + (n - 0xDC00)) :: spelled)
    else if isFirstHalf n || isSecondHalf n then none
    else spell (m :: rest) (Char.ofNat n :: spelled)

/-- The text that some codes, latest first, spell. -/
def spelled? (codes : List Nat) : Option String :=
  (spell codes []).map String.ofList

/-- The value of a hexadecimal digit of either case. -/
def hexDigit? (c : Char) : Option Nat :=
  if isDigit c then some (c.toNat - '0'.toNat)
  else if 'a' ≤ c && c ≤ 'f' then some (c.toNat - 'a'.toNat + 10)
  else if 'A' ≤ c && c ≤ 'F' then some (c.toNat - 'A'.toNat + 10)
  else none

/-- The character that a backslash and one further character stand for. -/
def escaped? (c : Char) : Option Char :=
  if c = '"' || c = '\\' || c = '/' then some c
  else if c = 'b' then some '\x08'
  else if c = 'f' then some '\x0c'
  else if c = 'n' then some '\n'
  else if c = 'r' then some '\r'
  else if c = 't' then some '\t'
  else none

/-! ### Numbers -/

/-- Places in a number, each named for what stands right before it. -/
inductive Place where
  | sign
  | zero
  | whole
  /-- A digit behind a zero in front, which no number has. -/
  | surplus
  | point
  | fraction
  | mark
  | markSign
  | exponent
deriving DecidableEq

/-- Whether a number may end at the place. -/
def Place.isFinal : Place → Bool
  | zero | whole | fraction | exponent => true
  | _ => false

/-- The place behind a letter that announces an exponent. -/
def Place.marked? (c : Char) : Option Place :=
  if c = 'e' || c = 'E' then some mark else none

/-- The place behind one more character, if the character belongs to the number. -/
def Place.next? : Place → Char → Option Place
  | sign, c => if c = '0' then some zero else if isDigit c then some whole else none
  | zero, c => if isDigit c then some surplus else if c = '.' then some point else marked? c
  | whole, c => if isDigit c then some whole else if c = '.' then some point else marked? c
  | point, c => if isDigit c then some fraction else none
  | fraction, c => if isDigit c then some fraction else marked? c
  | mark, c => if isDigit c then some exponent else if c = '+' || c = '-' then some markSign else none
  | markSign, c => if isDigit c then some exponent else none
  | exponent, c => if isDigit c then some exponent else none
  | surplus, _ => none

/-- The mark of a number with some characters, latest first. -/
def numberMark (read : List Char) : Mark :=
  .scalar ((literal? read.reverse).bind Literal.value?)

/-! ### Modes -/

/-- Where the reader stands; what was read of an incomplete mark is kept latest first. -/
inductive Mode where
  /-- Between two marks. -/
  | between
  /-- In a text. -/
  | string (codes : List Nat)
  /-- Behind a backslash in a text. -/
  | escape (codes : List Nat)
  /-- In the four hexadecimal digits of an escape. -/
  | code (codes : List Nat) (digits : List Nat)
  /-- In a number. -/
  | number (place : Place) (read : List Char)
  /-- In one of the three words, before some of its letters. -/
  | word (letters : List Char) (j : Json)

/-- White space between marks. -/
def isGap (c : Char) : Bool :=
  c = ' ' || c = '\t' || c = '\n' || c = '\r'

/-- What one character does between two marks: the mark that it is, if any, and the mode behind it. No mode
follows a character that may not stand there. -/
def Mode.start (c : Char) : List Mark × Option Mode :=
  if isGap c then ([], some between)
  else if c = '[' then ([.openArray], some between)
  else if c = ']' then ([.closeArray], some between)
  else if c = '\x7b' then ([.openObject], some between)
  else if c = '\x7d' then ([.closeObject], some between)
  else if c = ',' then ([.comma], some between)
  else if c = ':' then ([.colon], some between)
  else if c = '"' then ([], some (string []))
  else if c = 'n' then ([], some (word ['u', 'l', 'l'] .null))
  else if c = 't' then ([], some (word ['r', 'u', 'e'] (.bool true)))
  else if c = 'f' then ([], some (word ['a', 'l', 's', 'e'] (.bool false)))
  else if c = '-' then ([], some (number .sign [c]))
  else ([], (Place.sign.next? c).map fun place => number place [c])

/-- One character further: the marks that are now complete, and the new mode. No mode follows a character
that may not stand there, but a number may be complete before it. -/
def Mode.step : Mode → Char → List Mark × Option Mode
  | between, c => start c
  | string codes, c =>
    if c = '"' then ([.text (spelled? codes)], some between)
    else if c = '\\' then ([], some (escape codes))
    else if c.toNat < 0x20 then ([], none)
    else ([], some (string (c.toNat :: codes)))
  | escape codes, c =>
    if c = 'u' then ([], some (code codes []))
    else ([], (escaped? c).map fun d => string (d.toNat :: codes))
  | code codes digits, c =>
    ([], (hexDigit? c).map fun d =>
      match digits with
      | [d₃, d₂, d₁] => string ((((d₁ * 16 + d₂) * 16 + d₃) * 16 + d) :: codes)
      | _ => code codes (d :: digits))
  | number place read, c =>
    match place.next? c with
    | some place' => ([], some (number place' (c :: read)))
    | none =>
      if place.isFinal then
        let (marks, mode) := start c
        (numberMark read :: marks, mode)
      else ([], none)
  | word letters j, c =>
    match letters with
    | [l] => if c = l then ([.scalar (some j)], some between) else ([], none)
    | l :: rest => ([], if c = l then some (word rest j) else none)
    | [] => ([], none)

/-- The marks that are complete when no character is left, or nothing if the text ends within a mark. -/
def Mode.finish? : Mode → Option (List Mark)
  | between => some []
  | number place read => if place.isFinal then some [numberMark read] else none
  | _ => none

end DialogueSync.Json
