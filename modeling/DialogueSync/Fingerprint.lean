import DialogueSync.Digest.Hex
import DialogueSync.Digest.Sha256
import DialogueSync.Message

/-!
# Fingerprints

A short tag that tells whether a stored copy of a message is out of date. It is made of what a change of
the message touches: the length of the content in characters, the time of the last change, the role and
the model. An absent model counts as an empty one.
-/

namespace DialogueSync.Message

/-- The length of the content in characters. -/
def length (m : Message) : Nat :=
  m.content.length

/-- What a fingerprint is made of: length, time, role and model, with bars between them. -/
def fingerprintText (m : Message) : String :=
  Nat.repr m.length ++ "|" ++ Int.repr m.lastTouched.toInt ++ "|" ++ m.role.name ++ "|" ++
    m.model.getD ""

/-- The first sixteen hexadecimal digits of the SHA-256 digest of the text. -/
def fingerprint (m : Message) : String :=
  let digest := Digest.sha256 m.fingerprintText.toUTF8.toList
  String.ofList (Digest.hex 8 digest.a.toNat ++ Digest.hex 8 digest.b.toNat)

/-- A fingerprint has sixteen digits. -/
@[simp] theorem length_fingerprint (m : Message) : m.fingerprint.length = 16 := by
  simp [fingerprint]

end DialogueSync.Message
