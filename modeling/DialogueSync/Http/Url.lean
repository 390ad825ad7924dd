import DialogueSync.Text.Percent

/-!
# Addresses

What a server sees of an address: its path and query in normal form. White space at the ends, tabs and
line breaks are dropped; a backslash counts as a slash; a segment that stands for the same or for the
parent folder is resolved, also if its dots are percent-encoded; characters that may not stand in a path
or query are percent-encoded; and the fragment is left out.
-/

namespace DialogueSync.Http.Url

/-- Control characters and the space, which are dropped at the ends of an address. -/
def isMargin (c : Char) : Bool :=
  c.toNat ≤ 0x20

/-- Tabs and line breaks, which are dropped everywhere. -/
def isBreak (c : Char) : Bool :=
  c = '\t' || c = '\n' || c = '\r'

/-- The address without margins and breaks. -/
def clean (cs : List Char) : List Char :=
  ((cs.dropWhile isMargin).reverse.dropWhile isMargin).reverse.filter fun c => !isBreak c

/-- Slashes of either direction. -/
def isSlash (c : Char) : Bool :=
  c = '/' || c = '\\'

/-- The characters that end the host or a path. -/
def endsPath (c : Char) : Bool :=
  c = '?' || c = '#'

/-- What is percent-encoded in a path. -/
def encodedInPath (c : Char) : Bool :=
  c.toNat ≤ 0x20 || 0x7E < c.toNat ||
    c = '"' || c = '#' || c = '<' || c = '>' || c = '?' || c = '`' || c = '\x7b' || c = '\x7d'

/-- What is percent-encoded in a query. -/
def encodedInQuery (c : Char) : Bool :=
  c.toNat ≤ 0x20 || 0x7E < c.toNat || c = '"' || c = '#' || c = '<' || c = '>' || c = '\''

/-- The pieces of a path between its slashes. -/
def segments : List Char → List (List Char)
  | [] => [[]]
  | c :: rest =>
    if isSlash c then [] :: segments rest
    else
      match segments rest with
      | first :: more => (c :: first) :: more
      | [] => [[c]]

/-- A segment with percent-encoded dots written as dots. -/
def plainDots : List Char → List Char
  | '%' :: '2' :: 'e' :: rest => '.' :: plainDots rest
  | '%' :: '2' :: 'E' :: rest => '.' :: plainDots rest
  | c :: rest => c :: plainDots rest
  | [] => []

/-- Resolves the segments that are left after those passed already, which are kept last first. A segment
of dots at the end leaves an empty segment. -/
def resolve (passed : List (List Char)) : List (List Char) → List (List Char)
  | [] => passed.reverse
  | s :: rest =>
    let dots := plainDots s
    if dots = ['.', '.'] then
      resolve (if rest.isEmpty then [] :: passed.tail else passed.tail) rest
    else if dots = ['.'] then resolve (if rest.isEmpty then [] :: passed else passed) rest
    else resolve (Text.percentEncode encodedInPath s :: passed) rest

/-- The normal form of a path. -/
def normalPath (cs : List Char) : List Char :=
  let relative := if cs.head?.any isSlash then cs.tail else cs
  (resolve [] (segments relative)).flatMap ('/' :: ·)

/-- The normal form of what follows the path: the query, if there is one, without the fragment. -/
def normalQuery : List Char → List Char
  | '?' :: rest => '?' :: Text.percentEncode encodedInQuery (rest.takeWhile (· ≠ '#'))
  | _ => []

/-- What follows the scheme and its slashes in an address of the web. -/
def afterScheme? (cs : List Char) : Option (List Char) :=
  let scheme := (cs.takeWhile (· ≠ ':')).map Char.toLower
  if scheme = ['h', 't', 't', 'p'] || scheme = ['h', 't', 't', 'p', 's'] then
    some ((cs.dropWhile (· ≠ ':')).tail.dropWhile isSlash)
  else none

/-- The path and query of an address, or nothing if it is no address of the web or has no host. -/
def target? (address : String) : Option String := do
  let rest ← afterScheme? (clean address.toList)
  let inHost := fun c => !isSlash c && !endsPath c
  if (rest.takeWhile inHost).isEmpty then none
  else
    let local' := rest.dropWhile inHost
    let inPath := fun c => !endsPath c
    some (String.ofList (normalPath (local'.takeWhile inPath) ++ normalQuery (local'.dropWhile inPath)))

end DialogueSync.Http.Url
