/-!
# Media types

What a content type says about a body: a kind and a subtype, which may end in a suffix that names the
format underneath, and parameters. Parameters are only checked for their form, so a content type counts
as unreadable if one of them is.
-/

namespace DialogueSync.Http

/-- A media type in lower case, without its parameters. -/
structure MediaType where
  /-- What stands before the slash. -/
  kind : List Char
  /-- What stands behind the slash, up to the last plus sign. -/
  subtype : List Char
  /-- What stands behind the last plus sign, if there is one. -/
  suffix : Option (List Char) := none
deriving DecidableEq, Repr

namespace MediaType

/-- The marks that may stand in a token beside letters and digits. -/
def tokenMarks : List Char :=
  ['!', '#', '$', '%', '&', '\'', '*', '+', '-', '.', '^', '_', '`', '|', '~']

/-- Whether the character may stand in a token. -/
def isTokenChar (c : Char) : Bool :=
  c.isAlphanum || tokenMarks.contains c

/-- Whether the character may stand between quotation marks. -/
def isQuotable (c : Char) : Bool :=
  0x20 ≤ c.toNat && c.toNat < 0x7F

/-! ### Parameters -/

/-- Where one stands in a list of parameters. -/
inductive ParameterPlace where
  /-- Before a name. -/
  | before
  /-- In a name. -/
  | name
  /-- Behind the equals sign. -/
  | equals
  /-- In a plain value. -/
  | value
  /-- Behind an opening quotation mark; a quoted value has one character at least. -/
  | opened
  /-- In a quoted value. -/
  | quoted
  /-- Behind a closing quotation mark. -/
  | closed
deriving DecidableEq, Repr

/-- The place behind one more character, or nothing if that may not stand there. -/
def ParameterPlace.step (place : ParameterPlace) (c : Char) : Option ParameterPlace :=
  match place with
  | before => if c = ' ' then some before else if isTokenChar c then some name else none
  | name => if isTokenChar c then some name else if c = '=' then some equals else none
  | equals => if c = '"' then some opened else if isTokenChar c then some value else none
  | value => if isTokenChar c then some value else if c = ';' then some before else none
  | opened => if isQuotable c then some quoted else none
  | quoted => if c = '"' then some closed else if isQuotable c then some quoted else none
  | closed => if c = ';' then some before else if c = ' ' then some closed else none

/-- Whether a list of parameters may end here. -/
def ParameterPlace.mayEnd : ParameterPlace → Bool
  | before | equals | value | closed => true
  | name | opened | quoted => false

/-- Whether the text is a list of parameters. -/
def areParameters (cs : List Char) : Bool :=
  (cs.foldlM ParameterPlace.step .before).any ParameterPlace.mayEnd

/-! ### Reading -/

/-- A subtype cut at its last plus sign, unless that is its first character. -/
def cutSuffix (cs : List Char) : List Char × Option (List Char) :=
  let suffix := (cs.reverse.takeWhile (· ≠ '+')).reverse
  let subtype := cs.take (cs.length - suffix.length - 1)
  if suffix.length = cs.length || subtype.isEmpty then (cs, none) else (subtype, some suffix)

/-- The media type that a content type states, if it can be read. -/
def read? (s : String) : Option MediaType :=
  let kind := s.toList.takeWhile isTokenChar
  match s.toList.dropWhile isTokenChar with
  | '/' :: rest =>
    let (subtype, suffix) := cutSuffix ((rest.takeWhile isTokenChar).map Char.toLower)
    let ends :=
      match rest.dropWhile isTokenChar with
      | [] => true
      | ';' :: parameters => areParameters parameters
      | _ => false
    if kind.isEmpty || subtype.isEmpty || !ends then none
    else some ⟨kind.map Char.toLower, subtype, suffix⟩
  | _ => none

/-- Whether bodies of this type are JSON texts, by their subtype or by the suffix. -/
def isJson (m : MediaType) : Bool :=
  m.kind = "application".toList && (m.subtype = "json".toList || m.suffix = some "json".toList)

end MediaType

end DialogueSync.Http
