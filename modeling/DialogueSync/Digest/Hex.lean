/-!
# Hexadecimal words

Words as hexadecimal digits in lower case, always as many as the width of the word takes.
-/

namespace DialogueSync.Digest

/-- The sixteen hexadecimal digits. -/
def hexDigits : List Char :=
  ['0', '1', '2', '3', '4', '5', '6', '7', '8', '9', 'a', 'b', 'c', 'd', 'e', 'f']

/-- The last `count` hexadecimal digits of a number, highest first. -/
def hex : Nat → Nat → List Char
  | 0, _ => []
  | count + 1, n => hex count (n / 16) ++ [hexDigits.getD (n % 16) '0']

/-- There are as many digits as were asked for. -/
@[simp] theorem length_hex (count n : Nat) : (hex count n).length = count := by
  induction count generalizing n with
  | zero => rfl
  | succ count ih => simp [hex, ih]

/-- Every digit is one of the sixteen. -/
theorem mem_hexDigits_of_mem_hex {count n : Nat} {c : Char} (h : c ∈ hex count n) :
    c ∈ hexDigits := by
  induction count generalizing n with
  | zero => simp [hex] at h
  | succ count ih =>
    rw [hex, List.mem_append, List.mem_singleton] at h
    rcases h with h | rfl
    · exact ih h
    · have hlt : n % 16 < hexDigits.length := Nat.mod_lt n (by decide)
      rw [List.getD_eq_getElem?_getD, List.getElem?_eq_getElem hlt]
      exact List.getElem_mem hlt

end DialogueSync.Digest
