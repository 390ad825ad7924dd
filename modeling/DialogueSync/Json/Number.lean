import DialogueSync.Json.Basic

/-!
# Numbers in JSON texts

Reading a number literal, and writing a number. A literal without fraction and exponent that fits in 64
bits is a whole number. Of any other one the leading digits that fit in 64 bits are taken as a whole number,
and its nearest floating-point number is multiplied or divided by a power of ten. Both steps round, so the
result need not be the number nearest to the literal; there is none if it exceeds every floating-point number.

A floating-point number is written with the fewest digits whose nearest floating-point number it is. A reader
that rounds only once would always get it back from them, and this one mostly does.
-/

namespace DialogueSync.Json

/-! ### Reading -/

/-- Whether the character is a decimal digit. -/
def isDigit (c : Char) : Bool :=
  '0' ≤ c && c ≤ '9'

/-- The number that a row of decimal digits states. -/
def digitsValue (cs : List Char) : Nat :=
  cs.foldl (fun n c => 10 * n + (c.toNat - '0'.toNat)) 0

/-- The parts of a number literal. -/
structure Literal where
  /-- Whether a minus sign stands in front. -/
  negative : Bool
  /-- The digits before the point. -/
  whole : List Char
  /-- The digits after the point; none if there is no point. -/
  fraction : List Char
  /-- The exponent of ten; absent if the literal has none. -/
  exponent : Option Int

/-- The exponent part that the text is, or nothing if it is not one. -/
def exponent? : List Char → Option Int
  | [] => none
  | c :: cs =>
    let digits := if c = '+' || c = '-' then cs else c :: cs
    if digits.isEmpty || !digits.all isDigit then none
    else if c = '-' then some (-(digitsValue digits)) else some (digitsValue digits)

/-- The parts of the literal that the whole text is, or nothing if it is not a number literal. A
superfluous zero in front, a point without digits and an exponent without digits are refused. -/
def literal? (cs : List Char) : Option Literal :=
  let negative := cs.head? == some '-'
  let body := if negative then cs.tail else cs
  let whole := body.takeWhile isDigit
  if whole.isEmpty || (whole.head? == some '0' && whole.length > 1) then none
  else
    let afterWhole := body.dropWhile isDigit
    let pointed := afterWhole.head? == some '.'
    let fraction := if pointed then afterWhole.tail.takeWhile isDigit else []
    if pointed && fraction.isEmpty then none
    else
      match if pointed then afterWhole.tail.dropWhile isDigit else afterWhole with
      | [] => some ⟨negative, whole, fraction, if pointed then some 0 else none⟩
      | c :: rest =>
        if c = 'e' || c = 'E' then
          (exponent? rest).map fun e => ⟨negative, whole, fraction, some e⟩
        else none

/-- A power of ten as a floating-point number. -/
def floatPower (k : Nat) : Float :=
  Float.ofScientific 1 false k

/-- The exponent of the largest power of ten that is a floating-point number. -/
def maxPower : Nat := 308

/-- The number divided by the largest power of ten so many times. -/
def scaleDown (x : Float) : Nat → Float
  | 0 => x
  | steps + 1 => if x == 0 then x else scaleDown (x / floatPower maxPower) steps

/-- The number times a power of ten, or nothing if that exceeds every floating-point number. A power that is not
a floating-point number itself is divided by in several steps. -/
def scale (x : Float) (e : Int) : Option Float :=
  if maxPower < e then
    if x == 0 then some 0 else none
  else
    let steps := ((-e).toNat - 1) / maxPower
    let y :=
      if 0 ≤ e then x * floatPower e.toNat
      else scaleDown x steps / floatPower ((-e).toNat - maxPower * steps)
    if y.isFinite then some y else none

/-- Appends digits to a number as long as it fits in 64 bits: the number, and how many digits are left over. -/
def gather (n : Nat) : List Char → Nat × Nat
  | [] => (n, 0)
  | c :: cs =>
    let longer := 10 * n + (c.toNat - '0'.toNat)
    if longer < UInt64.size then gather longer cs else (n, cs.length + 1)

/-- The floating-point number that a literal is read as, without its sign. Whole digits that are left over raise
the exponent, and fractional ones are dropped. If the exponent itself does not fit in 32 bits, then the number
is zero or there is none. -/
def Literal.float? (l : Literal) : Option Float :=
  let (leading, beyond) := gather 0 l.whole
  let (significand, dropped) := gather leading l.fraction
  let exponent := l.exponent.getD 0
  if Int32.maxValue.toInt < exponent.natAbs then
    if significand ≠ 0 && 0 < exponent then none else some 0
  else scale (Float.ofNat significand) (beyond - (l.fraction.length - dropped : Nat) + exponent)

/-- The number that a literal denotes. -/
def Literal.value? (l : Literal) : Option Json :=
  let n : Int := if l.negative then -(digitsValue l.whole) else digitsValue l.whole
  if l.exponent.isNone && !(l.negative && n = 0) && Int64.minValue.toInt ≤ n && n < UInt64.size then
    some (.int n)
  else l.float?.map fun x => .float (if l.negative then -x else x)

/-! ### Writing -/

/-- A power of ten. -/
def powerOfTen (k : Nat) : Nat :=
  Nat.pow 10 k

/-- The floating-point number nearest to `m * 10 ^ e`, or nothing if that exceeds every one. -/
def nearestFloat (m : Nat) (e : Int) : Option Float :=
  let magnitude : Int := (Nat.toDigits 10 m).length + e
  if m = 0 || magnitude < -400 then some 0
  else if magnitude > 400 then none
  else
    let x := Float.ofScientific (if e < 0 then m else m * powerOfTen e.toNat) (e < 0) (-e).toNat
    if x.isFinite then some x else none

/-- The decimal digits of a number. -/
def natDigits (n : Nat) : List Char :=
  Nat.toDigits 10 n

/-- The decimal digits of a whole number behind its sign. -/
def intDigits (n : Int) : List Char :=
  if n < 0 then '-' :: natDigits n.natAbs else natDigits n.natAbs

/-- The nearest whole number to `n / d`, the even one of two that are equally near. -/
def roundDiv (n d : Nat) : Nat :=
  let q := n / d
  let twice := 2 * (n % d)
  if twice < d || (twice = d && q % 2 = 0) then q else q + 1

/-- The size of a finite floating-point number as a fraction. -/
def fraction (x : Float) : Nat × Nat :=
  let bits := x.toBits.toNat
  let raised := (bits >>> 52) % 2048
  let significand := bits % (1 <<< 52) + (if raised = 0 then 0 else 1 <<< 52)
  let shift := if raised = 0 then 1 else raised
  (significand <<< (shift - 1075), 1 <<< (1075 - shift))

/-- The power of ten of the leading digit of a positive fraction that is at least `10 ^ -400`. -/
def leadingPower (n d : Nat) : Int :=
  Int.ofNat (natDigits (n * powerOfTen 400 / d)).length - 401

/-- The decimal with the given number of significant digits that is nearest to a positive fraction, as a
whole number and the power of ten by which it is to be multiplied. -/
def nearestDecimal (n d digits : Nat) : Nat × Int :=
  let e := leadingPower n d - (digits - 1 : Nat)
  (if e < 0 then roundDiv (n * powerOfTen (-e).toNat) d else roundDiv n (d * powerOfTen e.toNat), e)

/-- The decimal with the fewest significant digits, of those nearest to a positive number, whose nearest
floating-point number it is; seventeen digits always suffice. -/
def shortestDecimal (x : Float) : Nat × Int :=
  let (n, d) := fraction x
  let identifies := fun (c : Nat × Int) =>
    (nearestFloat c.1 c.2).any fun y => y.toBits = (Float.abs x).toBits
  (((List.range 17).map fun i => nearestDecimal n d (i + 1)).find? identifies).getD
    (nearestDecimal n d 17)

/-- The text of `0.digits * 10 ^ power`: with a point among the digits or zeros around them if the power
is moderate, and with an exponent otherwise. -/
def layOut (digits : List Char) (power : Int) : List Char :=
  let count : Int := digits.length
  if count ≤ power && power ≤ 16 then
    digits ++ List.replicate (power - count).toNat '0' ++ ['.', '0']
  else if 0 < power && power ≤ 16 then
    digits.take power.toNat ++ '.' :: digits.drop power.toNat
  else if -5 < power && power ≤ 0 then
    '0' :: '.' :: List.replicate (-power).toNat '0' ++ digits
  else
    let fractional := if digits.length > 1 then '.' :: digits.drop 1 else []
    digits.take 1 ++ fractional ++ 'e' :: intDigits (power - 1)

/-- The text of a finite floating-point number. -/
def floatDigits (x : Float) : List Char :=
  let unsigned :=
    if x == 0 then ['0', '.', '0']
    else
      let (m, e) := shortestDecimal x
      let digits := natDigits m
      let kept := (digits.reverse.dropWhile (· == '0')).reverse
      layOut kept (e + digits.length)
  if x.toBits.toNat >>> 63 = 1 then '-' :: unsigned else unsigned

end DialogueSync.Json
