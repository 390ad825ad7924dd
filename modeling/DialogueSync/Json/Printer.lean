import DialogueSync.Json.Number

/-!
# Writing JSON texts

The compact text of a JSON value: no white space, quotes and backslashes escaped, control characters as
short escapes where there is one and as four hexadecimal digits otherwise. A floating-point number that
is not finite is written as null.
-/

namespace DialogueSync.Json

/-- The hexadecimal digit of a number below sixteen, in lower case. -/
def hexDigit (n : Nat) : Char :=
  if n < 10 then Char.ofNat ('0'.toNat + n) else Char.ofNat ('a'.toNat + (n - 10))

/-- What stands for one character inside a string. -/
def escape (c : Char) : List Char :=
  if c = '"' then ['\\', '"']
  else if c = '\\' then ['\\', '\\']
  else if c = '\x08' then ['\\', 'b']
  else if c = '\x0c' then ['\\', 'f']
  else if c = '\n' then ['\\', 'n']
  else if c = '\r' then ['\\', 'r']
  else if c = '\t' then ['\\', 't']
  else if c.toNat < 0x20 then
    ['\\', 'u', '0', '0', hexDigit (c.toNat / 16), hexDigit (c.toNat % 16)]
  else [c]

/-- A text between quotes. -/
def quoted (s : String) : List Char :=
  '"' :: s.toList.flatMap escape ++ ['"']

mutual

/-- The text of a value, in front of what follows it. -/
def chars : Json → List Char → List Char
  | .null, rest => 'n' :: 'u' :: 'l' :: 'l' :: rest
  | .bool true, rest => 't' :: 'r' :: 'u' :: 'e' :: rest
  | .bool false, rest => 'f' :: 'a' :: 'l' :: 's' :: 'e' :: rest
  | .int n, rest => intDigits n ++ rest
  | .float x, rest =>
    if x.isFinite then floatDigits x ++ rest else 'n' :: 'u' :: 'l' :: 'l' :: rest
  | .str s, rest => quoted s ++ rest
  | .arr items, rest => '[' :: itemChars items false (']' :: rest)
  | .obj fields, rest => '\x7b' :: fieldChars fields false ('\x7d' :: rest)

/-- The texts of the items of an array, each behind a comma unless it is the first. -/
def itemChars : List Json → Bool → List Char → List Char
  | [], _, rest => rest
  | j :: more, comma, rest =>
    (if comma then [','] else []) ++ chars j (itemChars more true rest)

/-- The texts of the fields of an object, each behind a comma unless it is the first. -/
def fieldChars : List (String × Json) → Bool → List Char → List Char
  | [], _, rest => rest
  | (name, j) :: more, comma, rest =>
    (if comma then [','] else []) ++ quoted name ++ ':' :: chars j (fieldChars more true rest)

end

/-- The compact text of a value. -/
def render (j : Json) : String :=
  String.ofList (chars j [])

end DialogueSync.Json
