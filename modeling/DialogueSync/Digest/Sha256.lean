/-!
# SHA-256

The SHA-256 digest of a sequence of bytes as eight 32-bit words. The message is closed with a one bit and
its length in bits, cut into blocks of sixteen words, and each block is worked into the state in
sixty-four rounds; the message schedule is a window of sixteen words that moves on by one word a round.
-/

namespace DialogueSync.Digest

/-- Eight words: the state between blocks, and in the end the digest. -/
structure Words where
  a : UInt32
  b : UInt32
  c : UInt32
  d : UInt32
  e : UInt32
  f : UInt32
  g : UInt32
  h : UInt32
deriving DecidableEq

/-- The state before the first block. -/
def Words.start : Words :=
  ⟨0x6a09e667, 0xbb67ae85, 0x3c6ef372, 0xa54ff53a, 0x510e527f, 0x9b05688c, 0x1f83d9ab, 0x5be0cd19⟩

/-- The constants of the sixty-four rounds. -/
def roundConstants : List UInt32 := [
  0x428a2f98, 0x71374491, 0xb5c0fbcf, 0xe9b5dba5, 0x3956c25b, 0x59f111f1, 0x923f82a4, 0xab1c5ed5,
  0xd807aa98, 0x12835b01, 0x243185be, 0x550c7dc3, 0x72be5d74, 0x80deb1fe, 0x9bdc06a7, 0xc19bf174,
  0xe49b69c1, 0xefbe4786, 0x0fc19dc6, 0x240ca1cc, 0x2de92c6f, 0x4a7484aa, 0x5cb0a9dc, 0x76f988da,
  0x983e5152, 0xa831c66d, 0xb00327c8, 0xbf597fc7, 0xc6e00bf3, 0xd5a79147, 0x06ca6351, 0x14292967,
  0x27b70a85, 0x2e1b2138, 0x4d2c6dfc, 0x53380d13, 0x650a7354, 0x766a0abb, 0x81c2c92e, 0x92722c85,
  0xa2bfe8a1, 0xa81a664b, 0xc24b8b70, 0xc76c51a3, 0xd192e819, 0xd6990624, 0xf40e3585, 0x106aa070,
  0x19a4c116, 0x1e376c08, 0x2748774c, 0x34b0bcb5, 0x391c0cb3, 0x4ed8aa4a, 0x5b9cca4f, 0x682e6ff3,
  0x748f82ee, 0x78a5636f, 0x84c87814, 0x8cc70208, 0x90befffa, 0xa4506ceb, 0xbef9a3f7, 0xc67178f2]

/-- A word turned to the right by `n` bits. -/
def turn (x n : UInt32) : UInt32 :=
  (x >>> n) ||| (x <<< (32 - n))

/-- One round with its constant and the word of the schedule that is due. -/
def Words.round (s : Words) (constant word : UInt32) : Words :=
  let mixE := turn s.e 6 ^^^ turn s.e 11 ^^^ turn s.e 25
  let choice := (s.e &&& s.f) ^^^ ((s.e ^^^ 0xffffffff) &&& s.g)
  let t := s.h + mixE + choice + constant + word
  let mixA := turn s.a 2 ^^^ turn s.a 13 ^^^ turn s.a 22
  let majority := (s.a &&& s.b) ^^^ (s.a &&& s.c) ^^^ (s.b &&& s.c)
  ⟨t + (mixA + majority), s.a, s.b, s.c, s.d + t, s.e, s.f, s.g⟩

/-- The word that enters the schedule when the first of the sixteen words in the window leaves it. -/
def nextWord (window : List UInt32) : UInt32 :=
  let at' := fun i => window.getD i 0
  let early := turn (at' 1) 7 ^^^ turn (at' 1) 18 ^^^ (at' 1 >>> 3)
  let late := turn (at' 14) 17 ^^^ turn (at' 14) 19 ^^^ (at' 14 >>> 10)
  at' 0 + early + at' 9 + late

/-- The rounds of one block, given the constants that are left and the window of the schedule. -/
def Words.rounds (s : Words) (window : List UInt32) : List UInt32 → Words
  | [] => s
  | constant :: rest =>
    (s.round constant (window.headD 0)).rounds (window.tail ++ [nextWord window]) rest

/-- The state after a block of sixteen words. -/
def Words.absorb (s : Words) (block : List UInt32) : Words :=
  let r := s.rounds block roundConstants
  ⟨s.a + r.a, s.b + r.b, s.c + r.c, s.d + r.d, s.e + r.e, s.f + r.f, s.g + r.g, s.h + r.h⟩

/-- Four bytes at a time as words, the first byte of each being the highest. -/
def wordsOf : List UInt8 → List UInt32
  | b₁ :: b₂ :: b₃ :: b₄ :: rest =>
    ((b₁.toUInt32 <<< 24) ||| (b₂.toUInt32 <<< 16) ||| (b₃.toUInt32 <<< 8) ||| b₄.toUInt32) ::
      wordsOf rest
  | _ => []

/-- The message closed with a one bit, as many zeros as fill the last block, and its length in bits. -/
def close (bytes : List UInt8) : List UInt8 :=
  let n := bytes.length
  let zeros := (119 - n % 64) % 64
  let length := (List.range 8).map fun i => UInt8.ofNat ((8 * n) >>> (8 * (7 - i)))
  bytes ++ 0x80 :: List.replicate zeros 0 ++ length

/-- The SHA-256 digest of a sequence of bytes. -/
def sha256 (bytes : List UInt8) : Words :=
  let words := wordsOf (close bytes)
  (List.range (words.length / 16)).foldl
    (fun s i => s.absorb ((words.drop (16 * i)).take 16)) Words.start

end DialogueSync.Digest
