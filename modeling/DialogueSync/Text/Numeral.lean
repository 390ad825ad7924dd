/-!
# Numerals

Reading a number that a setting states: decimal digits, behind a plus sign if one likes, and no more than
a given limit.
-/

namespace DialogueSync.Text

/-- The number that the whole text states, if it is below `limit`. -/
def numeral? (limit : Nat) (s : String) : Option Nat :=
  let digits :=
    match s.toList with
    | '+' :: rest => rest
    | cs => cs
  if digits.isEmpty || !digits.all Char.isDigit then none
  else
    let n := digits.foldl (fun n c => 10 * n + (c.toNat - '0'.toNat)) 0
    if n < limit then some n else none

end DialogueSync.Text
