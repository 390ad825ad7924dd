/-!
# White space

The characters with the Unicode property `White_Space`, and the two questions the library asks about
them: is a text blank, and what is left of it without the white space at its ends.
-/

namespace DialogueSync.Text

/-- The characters with the Unicode property `White_Space`. -/
def isSpace (c : Char) : Bool :=
  let n := c.toNat
  (0x0009 ≤ n && n ≤ 0x000D) || n == 0x0020 || n == 0x0085 || n == 0x00A0 || n == 0x1680 ||
    (0x2000 ≤ n && n ≤ 0x200A) || n == 0x2028 || n == 0x2029 || n == 0x202F || n == 0x205F ||
    n == 0x3000

/-- A text is blank when it holds nothing but white space. -/
def isBlank (s : String) : Bool :=
  s.toList.all isSpace

/-- The text without the white space at its two ends. -/
def trim (s : String) : String :=
  String.ofList (((s.toList.dropWhile isSpace).reverse.dropWhile isSpace).reverse)

/-- The empty text is blank. -/
@[simp] theorem isBlank_empty : isBlank "" = true := by
  simp [isBlank]

end DialogueSync.Text
