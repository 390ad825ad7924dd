/-!
# Percent encoding

Bytes written as a percent sign and two hexadecimal digits, as they stand in addresses. Decoding leaves
alone a percent sign that no two hexadecimal digits follow.
-/

namespace DialogueSync.Text

/-- The value of a hexadecimal digit of either case, given as a byte. -/
def hexValue? (b : UInt8) : Option UInt8 :=
  if 0x30 ≤ b && b ≤ 0x39 then some (b - 0x30)
  else if 0x41 ≤ b && b ≤ 0x46 then some (b - 0x41 + 10)
  else if 0x61 ≤ b && b ≤ 0x66 then some (b - 0x61 + 10)
  else none

/-- The bytes that percent-encoded bytes stand for. -/
def percentDecodeBytes : List UInt8 → List UInt8
  | b :: h :: l :: rest =>
    if b = 0x25 then
      match hexValue? h, hexValue? l with
      | some x, some y => (16 * x + y) :: percentDecodeBytes rest
      | _, _ => b :: percentDecodeBytes (h :: l :: rest)
    else b :: percentDecodeBytes (h :: l :: rest)
  | b :: rest => b :: percentDecodeBytes rest
  | [] => []

/-- The text that a percent-encoded text stands for, unless the bytes are not UTF-8. -/
def percentDecode? (s : String) : Option String :=
  String.fromUTF8? (ByteArray.mk (percentDecodeBytes s.toUTF8.toList).toArray)

/-- The upper-case hexadecimal digit of a number below sixteen. -/
def upperHexDigit (n : Nat) : Char :=
  if n < 10 then Char.ofNat ('0'.toNat + n) else Char.ofNat ('A'.toNat + (n - 10))

/-- A percent sign and two upper-case hexadecimal digits. -/
def percentByte (b : UInt8) : List Char :=
  ['%', upperHexDigit (b.toNat / 16), upperHexDigit (b.toNat % 16)]

/-- The character itself, or the percent-encoded bytes of its UTF-8 form if `mustEncode` holds. -/
def percentEncodeChar (mustEncode : Char → Bool) (c : Char) : List Char :=
  if mustEncode c then (String.singleton c).toUTF8.toList.flatMap percentByte else [c]

/-- The text with the characters for which `mustEncode` holds percent-encoded. -/
def percentEncode (mustEncode : Char → Bool) (cs : List Char) : List Char :=
  cs.flatMap (percentEncodeChar mustEncode)

end DialogueSync.Text
