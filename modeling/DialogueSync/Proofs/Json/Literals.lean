import DialogueSync.Json.Mark
import DialogueSync.Proofs.Codec.Numbers
import Mathlib.Data.List.TakeWhile
import Mathlib.Tactic.Lemma

/-!
# Literals of numbers

A number in a text is read twice: character by character to find its end, and as a whole once its end is found. The
first reading goes through places, and every literal takes it to a place at which a number may end
(`exists_after?_of_literal?`). The second reading gives back every whole number that fits in 64 bits from its digits
(`value?_intDigits`).
-/

namespace DialogueSync.Json

variable {c : Char} {cs ds : List Char}

/-! ### Places -/

namespace Place

/-- The place behind some characters, if all of them belong to the number. -/
def after? (place : Place) (cs : List Char) : Option Place :=
  cs.foldlM next? place

variable {place place' : Place}

lemma after?_cons (h : place.next? c = some place') : place.after? (c :: cs) = place'.after? cs := by
  rw [after?, List.foldlM_cons, h]
  rfl

/-- Characters that lead from one place to another are followed by those that lead on from there. -/
lemma after?_append (h : place.after? cs = some place') : place.after? (cs ++ ds) = place'.after? ds := by
  rw [after?, List.foldlM_append]
  change (place.after? cs).bind _ = _
  rw [h]
  rfl

/-- Digits lead nowhere else from a place behind digits. -/
lemma after?_digits (hplace : ∀ c, isDigit c = true → place.next? c = some place) (hds : ds.all isDigit = true) :
    place.after? ds = some place := by
  induction ds with
  | nil => rfl
  | cons d rest ih =>
    rw [List.all_cons, Bool.and_eq_true] at hds
    rw [after?_cons (hplace d hds.1)]
    exact ih hds.2

/-- Some digits lead from a place where a digit must come to the place behind digits. -/
lemma after?_some_digits (hfirst : ∀ c, isDigit c = true → place.next? c = some place')
    (hplace : ∀ c, isDigit c = true → place'.next? c = some place') (hne : ds ≠ []) (hds : ds.all isDigit = true) :
    place.after? ds = some place' := by
  cases ds with
  | nil => exact absurd rfl hne
  | cons d rest =>
    rw [List.all_cons, Bool.and_eq_true] at hds
    rw [after?_cons (hfirst d hds.1)]
    exact after?_digits hplace hds.2

/-- The digits before a point lead to a place where a number may end, a point may come, or an exponent. -/
lemma after?_whole (hne : ds ≠ []) (hds : ds.all isDigit = true) (hzero : ds.head? = some '0' → ds.length ≤ 1) :
    sign.after? ds = some zero ∨ sign.after? ds = some whole := by
  cases ds with
  | nil => exact absurd rfl hne
  | cons d rest =>
    rw [List.all_cons, Bool.and_eq_true] at hds
    by_cases hd : d = '0'
    · subst hd
      have hrest : rest = [] := List.eq_nil_of_length_eq_zero (by simpa using hzero rfl)
      subst hrest
      exact Or.inl rfl
    · right
      have hnext : sign.next? d = some whole := by rw [next?, if_neg hd, if_pos hds.1]
      rw [after?_cons hnext]
      exact after?_digits (fun c hc => by rw [next?, if_pos hc]) hds.2

/-- There are digits in an exponent, and nothing else. -/
lemma digits_of_exponent {α : Type} {x : Option α} {y : α}
    (h : (if ds.isEmpty || !ds.all isDigit then none else x) = some y) : ds ≠ [] ∧ ds.all isDigit = true := by
  rw [Option.ite_none_left_eq_some, Bool.or_eq_true, not_or] at h
  exact ⟨by simpa using h.1.1, by simpa using h.1.2⟩

/-- An exponent behind its letter leads to the end of a number. -/
lemma after?_exponent {e : Int} (h : exponent? cs = some e) : mark.after? cs = some exponent := by
  have hdigit : ∀ c, isDigit c = true → exponent.next? c = some exponent := fun c hc => by rw [next?, if_pos hc]
  cases cs with
  | nil => cases h
  | cons c rest =>
    by_cases hc : (c = '+' || c = '-') = true
    · rw [exponent?, if_pos hc] at h
      obtain ⟨hne, hds⟩ := digits_of_exponent h
      have hnext : mark.next? c = some markSign := by
        rcases Bool.or_eq_true .. ▸ hc with hc | hc <;> rw [of_decide_eq_true hc] <;> decide
      rw [after?_cons hnext]
      exact after?_some_digits (fun c hc => by rw [next?, if_pos hc]) hdigit hne hds
    · rw [exponent?, if_neg hc] at h
      obtain ⟨hne, hds⟩ := digits_of_exponent h
      exact after?_some_digits (fun c hc => by rw [next?, if_pos hc]) hdigit hne hds

/-- The point and the digits behind it lead to a place where a number may end. -/
lemma after?_fraction (hplace : place = zero ∨ place = whole) (hne : ds ≠ []) (hds : ds.all isDigit = true) :
    place.after? ('.' :: ds) = some fraction := by
  have hpoint : place.next? '.' = some point := by rcases hplace with rfl | rfl <;> decide
  rw [after?_cons hpoint]
  exact after?_some_digits (fun c hc => by rw [next?, if_pos hc]) (fun c hc => by rw [next?, if_pos hc]) hne hds

/-- What may stand behind all digits of a number: nothing, or an exponent. -/
def IsEnd (cs : List Char) : Prop :=
  cs = [] ∨ ∃ c ds e, cs = c :: ds ∧ (c = 'e' ∨ c = 'E') ∧ exponent? ds = some e

/-- The end of a number leads to a place where a number may end. -/
lemma exists_after?_end (hplace : place = zero ∨ place = whole ∨ place = fraction) (hcs : IsEnd cs) :
    ∃ place', isFinal place' = true ∧ place.after? cs = some place' := by
  rcases hcs with rfl | ⟨c, ds, e, rfl, hc, he⟩
  · exact ⟨place, by rcases hplace with rfl | rfl | rfl <;> rfl, rfl⟩
  · have hmark : place.next? c = some mark := by
      rcases hplace with rfl | rfl | rfl <;> rcases hc with rfl | rfl <;> decide
    exact ⟨exponent, rfl, by rw [after?_cons hmark, after?_exponent he]⟩

/-- And so does a point with the digits and the end behind it. -/
lemma exists_after?_point (hplace : place = zero ∨ place = whole) (hne : ds.takeWhile isDigit ≠ [])
    (hend : IsEnd (ds.dropWhile isDigit)) :
    ∃ place', isFinal place' = true ∧ place.after? ('.' :: ds) = some place' := by
  obtain ⟨place', hfinal, hafter⟩ := exists_after?_end (Or.inr (Or.inr rfl)) hend
  refine ⟨place', hfinal, ?_⟩
  rw [← hafter, ← after?_append (after?_fraction hplace hne List.all_takeWhile), List.cons_append,
    List.takeWhile_append_dropWhile]

end Place

open Place in
/-- The characters of a literal behind its sign lead to a place where a number may end. -/
theorem exists_after?_of_literal? {l : Literal} (h : literal? cs = some l) :
    ∃ place : Place, place.isFinal = true ∧
      sign.after? (if cs.head? == some '-' then cs.tail else cs) = some place := by
  unfold literal? at h
  extract_lets negative body digits afterDigits pointed fractional at h
  rw [Option.ite_none_left_eq_some] at h
  obtain ⟨hdigits, h⟩ := h
  rw [Option.ite_none_left_eq_some] at h
  obtain ⟨hfractional, h⟩ := h
  obtain ⟨place, hplace, hafter⟩ : ∃ place, (place = zero ∨ place = whole) ∧ sign.after? digits = some place := by
    simp only [Bool.or_eq_true, Bool.and_eq_true, not_or, not_and, List.isEmpty_iff, beq_iff_eq,
      decide_eq_true_eq, Nat.not_lt] at hdigits
    rcases after?_whole hdigits.1 List.all_takeWhile hdigits.2 with hafter | hafter
    · exact ⟨zero, Or.inl rfl, hafter⟩
    · exact ⟨whole, Or.inr rfl, hafter⟩
  change ∃ place, place.isFinal = true ∧ sign.after? body = some place
  rw [show body = digits ++ afterDigits from List.takeWhile_append_dropWhile.symm, after?_append hafter]
  -- What is left behind all digits, with a point among them or not, has to be an end.
  generalize hremainder : (if pointed then afterDigits.tail.dropWhile isDigit else afterDigits) = remainder at h
  have hend : IsEnd remainder := by
    cases remainder with
    | nil => exact Or.inl rfl
    | cons c ds =>
      obtain ⟨hc, h⟩ := Option.ite_none_right_eq_some.mp h
      obtain ⟨e, he, -⟩ := Option.map_eq_some_iff.mp h
      exact Or.inr ⟨c, ds, e, rfl, by simpa using hc, he⟩
  by_cases hpointed : pointed = true
  · obtain ⟨rest, hrest⟩ : ∃ rest, afterDigits = '.' :: rest :=
      List.head?_eq_some_iff.mp (by simpa [pointed] using hpointed)
    rw [if_pos hpointed, hrest, List.tail_cons] at hremainder
    have hne : rest.takeWhile isDigit ≠ [] := by
      simpa [fractional, hpointed, hrest] using hfractional
    rw [hrest]
    exact exists_after?_point hplace hne (hremainder ▸ hend)
  · rw [if_neg hpointed] at hremainder
    rw [hremainder]
    exact exists_after?_end (hplace.imp_right Or.inl) hend

/-! ### Whole numbers -/

lemma natDigits_of_lt {n : Nat} (h : n < 10) : natDigits n = [n.digitChar] :=
  Nat.toDigits_of_lt_base h

/-- A number of several digits is that of all but the last, followed by the last. -/
lemma natDigits_of_le {n : Nat} (h : 10 ≤ n) : natDigits n = natDigits (n / 10) ++ [(n % 10).digitChar] :=
  Nat.toDigits_of_base_le (by decide) h

/-- There is nothing but digits in the text of a number. -/
lemma all_isDigit_natDigits (n : Nat) : (natDigits n).all isDigit = true := by
  refine List.all_eq_true.mpr fun c hc => ?_
  have hdigit : c.isDigit = true := Nat.isDigit_of_mem_toDigits (by decide) (by decide) hc
  simp only [Char.isDigit, Bool.and_eq_true, decide_eq_true_eq] at hdigit
  simp only [isDigit, Bool.and_eq_true, decide_eq_true_eq]
  exact hdigit

/-- Digits state the number whose digits they are. -/
lemma digitsValue_natDigits (n : Nat) : digitsValue (natDigits n) = n := by
  induction n using Nat.strongRecOn with
  | ind n ih =>
    by_cases hn : n < 10
    · have hvalue : n.digitChar.toNat - 48 = n := Nat.toNat_digitChar_sub_48_of_lt_ten hn
      rw [natDigits_of_lt hn]
      simpa [digitsValue] using hvalue
    · have hlast : (n % 10).digitChar.toNat - 48 = n % 10 :=
        Nat.toNat_digitChar_sub_48_of_lt_ten (Nat.mod_lt n (by decide))
      have hrest := ih (n / 10) (by omega)
      rw [natDigits_of_le (by omega), digitsValue, List.foldl_append, ← digitsValue, hrest]
      change 10 * (n / 10) + ((n % 10).digitChar.toNat - 48) = n
      omega

/-- Only zero itself begins with a zero. -/
lemma head?_natDigits_ne {n : Nat} (hn : 0 < n) : (natDigits n).head? ≠ some '0' := by
  induction n using Nat.strongRecOn with
  | ind n ih =>
    by_cases hlt : n < 10
    · rw [natDigits_of_lt hlt]
      simp only [List.head?_cons, ne_eq, Option.some.injEq, Nat.digitChar_eq_zero]
      omega
    · have hne : natDigits (n / 10) ≠ [] := Nat.toDigits_ne_nil
      rw [natDigits_of_le (by omega), List.head?_append, List.head?_eq_some_head hne, Option.some_or,
        ← List.head?_eq_some_head hne]
      exact ih (n / 10) (by omega) (by omega)

/-- A number that begins with a zero has no other digits. -/
lemma length_natDigits_le {n : Nat} (h : (natDigits n).head? = some '0') : (natDigits n).length ≤ 1 := by
  rcases Nat.eq_zero_or_pos n with rfl | hn
  · decide
  · exact absurd h (head?_natDigits_ne hn)

/-- The digits of a whole number behind its sign are a literal without fraction and exponent. -/
lemma literal?_intDigits (n : Int) :
    literal? (intDigits n) = some ⟨decide (n < 0), natDigits n.natAbs, [], none⟩ := by
  have hall : ∀ d ∈ natDigits n.natAbs, isDigit d = true := List.all_eq_true.mp (all_isDigit_natDigits _)
  have htake : (natDigits n.natAbs).takeWhile isDigit = natDigits n.natAbs := List.takeWhile_eq_self_iff.mpr hall
  have hdrop : (natDigits n.natAbs).dropWhile isDigit = [] := List.dropWhile_eq_nil_iff.mpr hall
  have hsign : (natDigits n.natAbs).head? ≠ some '-' := by
    intro hhead
    exact absurd (hall _ (List.mem_of_mem_head? hhead)) (by decide)
  have hplain : ((natDigits n.natAbs).isEmpty || ((natDigits n.natAbs).head? == some '0' &&
      decide ((natDigits n.natAbs).length > 1))) = false := by
    simp only [Bool.or_eq_false_iff, Bool.and_eq_false_iff, List.isEmpty_eq_false_iff, beq_eq_false_iff_ne,
      decide_eq_false_iff_not, Nat.not_lt]
    exact ⟨Nat.toDigits_ne_nil, Decidable.not_or_of_imp length_natDigits_le⟩
  unfold literal? intDigits
  by_cases hn : n < 0
  · simp [hn, htake, hdrop, hplain]
  · simp [hn, htake, hdrop, hplain, hsign]

/-- A whole number that fits in 64 bits, with or without a sign, is read back from its digits. -/
theorem value?_intDigits {n : Int} (hmin : -2 ^ 63 ≤ n) (hmax : n < 2 ^ 64) :
    (literal? (intDigits n)).bind Literal.value? = some (.int n) := by
  have hstated : (if decide (n < 0) = true then -(digitsValue (natDigits n.natAbs) : Int)
      else digitsValue (natDigits n.natAbs)) = n := by
    rw [digitsValue_natDigits]
    by_cases hn : n < 0
    · rw [if_pos (decide_eq_true hn)]
      omega
    · rw [if_neg (mt of_decide_eq_true hn)]
      omega
  have hfits : (!(decide (n < 0) && decide (n = 0)) && decide (Int64.minValue.toInt ≤ n) &&
      decide (n < UInt64.size)) = true := by
    simp only [Bool.and_eq_true, Bool.not_eq_true', Bool.and_eq_false_iff, decide_eq_true_eq, decide_eq_false_iff_not]
    exact ⟨⟨by omega, hmin⟩, hmax⟩
  rw [literal?_intDigits, Option.bind_some, Literal.value?]
  dsimp only
  rw [hstated, Option.isNone_none, Bool.true_and, if_pos hfits]

/-! ### Floating-point numbers -/

/-- The floating-point number that the digits of one are read as, if they are read as one. -/
def reread? (x : Float) : Option Float :=
  match (literal? (floatDigits x)).bind Literal.value? with
  | some (.float y) => some y
  | _ => none

variable {x y : Float}

/-- The floating-point number is what the text stands for. -/
lemma value?_of_reread? (h : reread? x = some y) :
    (literal? (floatDigits x)).bind Literal.value? = some (.float y) := by
  unfold reread? at h
  split at h
  next hvalue => rw [hvalue, Option.some.inj h]
  next => cases h

lemma isFinite_zero : (0 : Float).isFinite = true :=
  Numbers.isFinite_ofInt (n := 0) (by decide) (by decide)

/-- What is scaled is finite, or nothing. -/
lemma isFinite_of_scale {e : Int} (h : scale x e = some y) : y.isFinite = true := by
  unfold scale at h
  split at h
  · exact Option.some.inj (Option.ite_none_right_eq_some.mp h).2 ▸ isFinite_zero
  · extract_lets steps z at h
    obtain ⟨hz, h⟩ := Option.ite_none_right_eq_some.mp h
    exact Option.some.inj h ▸ hz

lemma isFinite_of_float? {l : Literal} (h : l.float? = some x) : x.isFinite = true := by
  unfold Literal.float? at h
  dsimp only at h
  split at h
  · exact Option.some.inj (Option.ite_none_left_eq_some.mp h).2 ▸ isFinite_zero
  · exact isFinite_of_scale h

/-- What digits are read as is finite. -/
lemma isFinite_of_reread? (h : reread? x = some y) : y.isFinite = true := by
  obtain ⟨l, -, hl⟩ := Option.bind_eq_some_iff.mp (value?_of_reread? h)
  unfold Literal.value? at hl
  extract_lets n at hl
  split at hl
  · cases hl
  · obtain ⟨z, hz, hy⟩ := Option.map_eq_some_iff.mp hl
    have hfinite := isFinite_of_float? hz
    rw [← Json.float.inj hy]
    split
    · exact Numbers.isFinite_neg hfinite
    · exact hfinite

end DialogueSync.Json
