import DialogueSync.Fingerprint
import Mathlib.Tactic.Lemma
import Std.Data.String.ToInt

/-!
# What a fingerprint is made of

The text that is hashed for a fingerprint has four fields with bars between them. Only the last one, the model, may
have bars of its own, so the fields can be cut off one after the other from the left (`append_bar_inj`). A number is
known from its decimal digits and a role from its name. So two messages have one text exactly if they agree in all
that it is made of (`fingerprintText_eq_iff`), and what goes unnoticed by a fingerprint is no more than that, and
what the digest does to different texts.
-/

namespace DialogueSync

/-- The sixty-four hexadecimal digits of a digest, word by word. -/
def Digest.Words.digits (w : Words) : List Char :=
  [w.a, w.b, w.c, w.d, w.e, w.f, w.g, w.h].flatMap fun word => hex 8 word.toNat

namespace Message

variable {m n : Message}

/-! ### Bars -/

/-- No number is written with the mark between the parts. -/
lemma bar_not_mem_natRepr (k : Nat) : '|' ∉ k.repr.toList := by
  rw [Nat.toList_repr]
  intro hbar
  exact absurd (Nat.isDigit_of_mem_toDigits (by decide) (by decide) hbar) (by decide)

lemma bar_not_mem_intRepr (i : Int) : '|' ∉ i.repr.toList := by
  rw [Int.repr_eq_if]
  split
  · exact bar_not_mem_natRepr _
  · rw [String.toList_append, List.mem_append, not_or]
    exact ⟨by decide, bar_not_mem_natRepr _⟩

lemma bar_not_mem_name (r : Role) : '|' ∉ r.name.toList := by
  cases r <;> decide

/-- What stands before the first mark can be told from the rest. -/
lemma takeWhile_append_bar {s x : List Char} (hs : '|' ∉ s) : (s ++ '|' :: x).takeWhile (· ≠ '|') = s := by
  rw [List.takeWhile_append_of_pos fun c hc => ?_, List.takeWhile_cons_of_neg (by simp), List.append_nil]
  rw [decide_eq_true_iff]
  rintro rfl
  exact hs hc

/-- A field ends at the first bar. -/
lemma append_bar_inj {s t x y : String} (hs : '|' ∉ s.toList) (ht : '|' ∉ t.toList) :
    s ++ "|" ++ x = t ++ "|" ++ y ↔ s = t ∧ x = y := by
  simp only [← String.toList_inj, String.toList_append, List.append_assoc]
  change s.toList ++ '|' :: x.toList = t.toList ++ '|' :: y.toList ↔ _
  constructor
  · intro h
    have hst : s.toList = t.toList := by
      rw [← takeWhile_append_bar (x := x.toList) hs, h, takeWhile_append_bar ht]
    rw [hst] at h
    exact ⟨hst, List.tail_eq_of_cons_eq (List.append_cancel_left h)⟩
  · rintro ⟨hst, hxy⟩
    rw [hst, hxy]

/-! ### Fields -/

/-- Roles have different names. -/
lemma role_eq_of_name_eq {r r' : Role} (h : r.name = r'.name) : r = r' := by
  rw [← Option.some_inj, ← Role.ofName?_name r, h, Role.ofName?_name]

/-- The text with its fields cut off from the left. -/
lemma fingerprintText_eq (m : Message) : m.fingerprintText =
    m.length.repr ++ "|" ++ (m.lastTouched.toInt.repr ++ "|" ++ (m.role.name ++ "|" ++ m.model.getD "")) := by
  simp only [fingerprintText, String.append_assoc]

/-- Two messages have one text exactly if they agree in the length of the content, the time of the last change, the
role, and the model, of which an absent one counts as empty. -/
lemma fingerprintText_eq_iff : m.fingerprintText = n.fingerprintText ↔
    m.length = n.length ∧ m.lastTouched = n.lastTouched ∧ m.role = n.role ∧ m.model.getD "" = n.model.getD "" := by
  rw [fingerprintText_eq, fingerprintText_eq, append_bar_inj (bar_not_mem_natRepr _) (bar_not_mem_natRepr _),
    append_bar_inj (bar_not_mem_intRepr _) (bar_not_mem_intRepr _),
    append_bar_inj (bar_not_mem_name _) (bar_not_mem_name _), Nat.repr_inj, Int.repr_inj, Int64.toInt_inj]
  refine and_congr_right fun _ => and_congr_right fun _ => and_congr_left fun _ => ?_
  exact ⟨role_eq_of_name_eq, congrArg Role.name⟩

/-! ### Digits -/

/-- A fingerprint is the beginning of the digest of its text. -/
lemma toList_fingerprint (m : Message) :
    m.fingerprint.toList = (Digest.sha256 m.fingerprintText.toUTF8.toList).digits.take 16 := by
  rw [fingerprint, String.toList_ofList, Digest.Words.digits, List.flatMap_cons, List.flatMap_cons,
    ← List.append_assoc, List.take_left' (by simp)]

lemma isDigit_or_of_mem_hexDigits : ∀ c ∈ Digest.hexDigits, c.isDigit ∨ 'a' ≤ c ∧ c ≤ 'f' := by
  simp [Digest.hexDigits]

/-- A fingerprint consists of digits and of letters up to `f`. -/
lemma isDigit_or_of_mem_fingerprint {c : Char} (h : c ∈ m.fingerprint.toList) :
    c.isDigit ∨ 'a' ≤ c ∧ c ≤ 'f' := by
  rw [fingerprint, String.toList_ofList, List.mem_append] at h
  exact isDigit_or_of_mem_hexDigits c (h.elim Digest.mem_hexDigits_of_mem_hex Digest.mem_hexDigits_of_mem_hex)

/-- The text whose digest begins with the fingerprint is the same for two messages exactly if they have the same
number of characters, the same time of the last change, the same role and the same model, where an absent one
counts as empty. A fingerprint has sixteen characters, all of which are digits or one of the letters a to f. -/
theorem unambiguous_fingerprint (m n : Message) :
    (m.fingerprintText = n.fingerprintText ↔ m.content.length = n.content.length ∧
      m.lastTouched = n.lastTouched ∧ m.role = n.role ∧ m.model.getD "" = n.model.getD "") ∧
    m.fingerprint.toList = (Digest.sha256 m.fingerprintText.toUTF8.toList).digits.take 16 ∧
    m.fingerprint.length = 16 ∧ ∀ c ∈ m.fingerprint.toList, c.isDigit ∨ 'a' ≤ c ∧ c ≤ 'f' :=
  ⟨fingerprintText_eq_iff, toList_fingerprint m, length_fingerprint m, fun _ => isDigit_or_of_mem_fingerprint⟩

/-- Without the bars the text of both messages would begin with 112. -/
example :
    let brief : Message := { id := "a", role := .user, content := "?", createdAt := 12 }
    let early : Message := { id := "a", role := .user, content := "Why is that", createdAt := 2 }
    brief.fingerprintText ≠ early.fingerprintText := by
  decide +kernel

end Message

end DialogueSync
