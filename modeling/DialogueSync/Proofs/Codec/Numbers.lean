import Mathlib.Algebra.Group.Int.Defs
import Mathlib.Algebra.Group.Nat.Defs
import Mathlib.Tactic.Lemma

/-!
# Finite floating-point numbers

A whole number that is read as a floating-point number is rounded to the nearest one. The result is finite
if the number fits in 64 bits, with or without a sign (`isFinite_ofInt`), since the exponents of such numbers are
far below the largest one, and a finite number stays finite when its sign changes (`isFinite_neg`). To see this it is
enough to bound the exponents roughly along the way from the number to its packed form: a number is `Moderate` if it
is zero or has a mantissa and an exponent below some bounds, and rounding, packing and multiplying keep it so, with
bounds that are not much larger.
-/

namespace DialogueSync.Numbers

open Float.Model (Format totalExponent)
open Float.Model.UnpackedFloat
open Float.Model (UnpackedFloat)

/-- The number is zero, or finite with at most so many bits in the mantissa and an exponent up to a bound. -/
inductive Moderate (bits : Nat) (bound : Int) : UnpackedFloat → Prop where
  /-- Zero of either sign is moderate. -/
  | zero (s : Sign) : Moderate bits bound (.zero s)
  /-- A finite number is moderate if its mantissa and its exponent are. -/
  | finite (s : Sign) {m : Nat} {e : Int} (hpos : 0 < m) (hm : m < 2 ^ bits) (he : e ≤ bound) :
    Moderate bits bound (.finite s m e hpos)

variable {bits bits' m : Nat} {bound bound' e : Int} {x y : UnpackedFloat}

/-- A moderate number is finite. -/
lemma Moderate.isFinite (h : Moderate bits bound x) : x.isFinite = true := by
  cases h <;> rfl

lemma Moderate.neg (h : Moderate bits bound x) : Moderate bits bound x.neg := by
  cases h with
  | zero s => exact .zero (-s)
  | finite s hpos hm he => exact .finite (-s) hpos hm he

lemma Moderate.mono (h : Moderate bits bound x) (hbits : bits ≤ bits') (hbound : bound ≤ bound') :
    Moderate bits' bound' x := by
  cases h with
  | zero s => exact .zero s
  | finite s hpos hm he =>
    have hpow : 2 ^ bits ≤ 2 ^ bits' := Nat.pow_le_pow_right (by decide) hbits
    exact .finite s hpos (Nat.lt_of_lt_of_le hm hpow) (Int.le_trans he hbound)

lemma log2_le_of_le (h : m ≤ 2 ^ bits) : m.log2 ≤ bits := by
  by_cases hm : m = 0
  · subst hm
    exact Nat.zero_le bits
  · have hlt : m.log2 < bits + 1 := by
      rw [Nat.log2_lt hm, Nat.pow_succ]
      omega
    omega

/-! ### Rounding -/

/-- The exponent of a double is such that its mantissa has 53 bits, unless the number is too small for that. -/
lemma targetExponent_binary64 (e : Int) : Format.binary64.targetExponent e = max (e - 53) (-1074) :=
  rfl

/-- Dropping bits makes no mantissa greater. -/
lemma mantissa_shift_le (em : ExtendedMantissa) (n : Nat) : (em >>> n).mantissa ≤ em.mantissa := by
  induction n with
  | zero => exact Nat.le_refl _
  | succ n ih => exact Nat.le_trans (Nat.div_le_self _ 2) ih

/-- And rounding makes it greater by one at most. -/
lemma roundedMantissa_le (em : ExtendedMantissa) : em.roundedMantissa ≤ em.mantissa + 1 := by
  obtain ⟨m, r, s⟩ := em
  have hmod := Nat.mod_lt m (show 2 > 0 by decide)
  cases r <;> cases s <;>
    simp only [ExtendedMantissa.roundedMantissa, ExtendedMantissa.accuracy, Accuracy.roundToNearestEven] <;>
    omega

/-- Shifting a number to where its mantissa fits does not make the mantissa larger, and the exponent larger by
at most the bits of the mantissa. -/
lemma shiftToTargetExponent_le (a : Accuracy) (hm : m ≤ 2 ^ bits) (he : e ≤ bound) (hbound : -1074 ≤ bound) :
    (shiftToTargetExponent Format.binary64 m e a).1.mantissa ≤ m ∧
      (shiftToTargetExponent Format.binary64 m e a).2 ≤ bound + bits := by
  have hlog := log2_le_of_le hm
  constructor
  · refine Nat.le_trans (mantissa_shift_le _ _) ?_
    cases a with
    | exact => exact Nat.le_refl _
    | inexact o => cases o <;> exact Nat.le_refl _
  · simp only [shiftToTargetExponent, shiftToExponent, targetExponent_binary64, totalExponent]
    omega

/-- Rounding keeps a number moderate. -/
lemma moderate_roundWithAccuracy (s : Sign) (a : Accuracy) (hm : m < 2 ^ bits) (he : e ≤ bound)
    (hbound : -1074 ≤ bound) :
    Moderate (bits + 1) (bound + bits + bits) (roundWithAccuracy Format.binary64 s m e a) := by
  obtain ⟨hmantissa, hexponent⟩ := shiftToTargetExponent_le a (Nat.le_of_lt hm) he hbound
  have hrounded := roundedMantissa_le (shiftToTargetExponent Format.binary64 m e a).1
  have hfits : (shiftToTargetExponent Format.binary64 m e a).1.roundedMantissa ≤ 2 ^ bits := by omega
  obtain ⟨hfinal, hlast⟩ := shiftToTargetExponent_le .exact hfits hexponent (by omega)
  rw [roundWithAccuracy]
  dsimp only
  by_cases hzero : (shiftToTargetExponent Format.binary64
      (shiftToTargetExponent Format.binary64 m e a).1.roundedMantissa
      (shiftToTargetExponent Format.binary64 m e a).2 .exact).1.mantissa = 0
  · rw [dif_pos hzero]
    exact .zero s
  · rw [dif_neg hzero]
    refine .finite s _ ?_ hlast
    rw [Nat.pow_succ]
    omega

/-- Before it is rounded a number may be written with more bits, up to as many as a mantissa can have. -/
lemma moderate_round (s : Sign) (hm : m < 2 ^ bits) :
    Moderate (bits + 54) (2 * (bits + 53)) (UnpackedFloat.round Format.binary64 s m 0) := by
  have htarget : ((0 : Int) - Format.binary64.targetExponent (totalExponent m 0)).toNat ≤ 53 := by
    simp only [targetExponent_binary64, totalExponent]
    omega
  have hshift : m <<< ((0 : Int) - Format.binary64.targetExponent (totalExponent m 0)).toNat < 2 ^ (bits + 53) := by
    rw [Nat.shiftLeft_eq, Nat.pow_add]
    exact Nat.mul_lt_mul_of_lt_of_le hm (Nat.pow_le_pow_right (by decide) htarget) (Nat.two_pow_pos _)
  rw [UnpackedFloat.round, decreaseExponent]
  have hexponent : (0 : Int) - ((0 : Int) - Format.binary64.targetExponent (totalExponent m 0)).toNat ≤ 0 := by
    omega
  have hround := moderate_roundWithAccuracy s .exact hshift hexponent (by decide)
  rwa [show (0 : Int) + (bits + 53 : Nat) + (bits + 53 : Nat) = 2 * (bits + 53) by omega] at hround

/-- A whole number is moderate. -/
lemma moderate_ofNat (hm : m < 2 ^ bits) :
    Moderate (bits + 54) (2 * (bits + 53)) (ofNat Format.binary64 m) := by
  rw [ofNat, ofInt, UnpackedFloat.normalize]
  split
  · refine moderate_round _ ?_
    rw [Int.toNat_of_nonpos (by omega)]
    exact Nat.two_pow_pos bits
  · exact .zero .positive
  · exact moderate_round _ (by simpa using hm)

lemma moderate_mul (hx : Moderate bits bound x) (hy : Moderate bits' bound' y) (hbound : -1074 ≤ bound + bound') :
    Moderate (bits + bits' + 1) (bound + bound' + 2 * (bits + bits')) (mul Format.binary64 x y) := by
  cases hx with
  | zero s => cases hy <;> exact .zero _
  | finite s hpos hm he =>
    cases hy with
    | zero s' => exact .zero _
    | @finite s' m' e' hpos' hm' he' =>
      have hmul := Nat.mul_lt_mul_of_lt_of_le hm (Nat.le_of_lt hm') (Nat.two_pow_pos _)
      rw [← Nat.pow_add] at hmul
      have hround := moderate_roundWithAccuracy (s * s') .exact hmul (Int.add_le_add he he') hbound
      rwa [show bound + bound' + (bits + bits' : Nat) + (bits + bits' : Nat) =
        bound + bound' + 2 * (bits + bits') by omega] at hround

/-! ### Packing -/

/-- What is unpacked from bits whose exponent is not the largest. -/
lemma moderate_unpack {b : BitVec Format.binary64.numBits} (hexponent : unpackExponent b ≠ -1#11)
    (hbound : -1074 ≤ bound) (hle : ((unpackExponent b).toNat : Int) - 1075 ≤ bound) :
    Moderate 53 bound (unpack Format.binary64 b) := by
  delta unpack
  dsimp only
  rw [if_neg hexponent]
  by_cases hleast : unpackExponent b = 0#11
  · rw [if_pos hleast]
    by_cases hzero : unpackMantissa b = 0#52
    · rw [dif_pos hzero]
      exact .zero _
    · rw [dif_neg hzero]
      refine .finite _ _ (by omega) ?_
      rw [hleast]
      exact hbound
  · rw [if_neg hleast]
    exact .finite _ _ (1#1 ++ unpackMantissa b).isLt hle

/-- A number in which not all bits of the exponent are set is moderate. -/
lemma moderate_unpack_packComponents (s : Sign) (exponent : BitVec 11) (mantissa : BitVec 52)
    (hexponent : exponent ≠ -1#11) (hbound : -1074 ≤ bound) (hle : (exponent.toNat : Int) - 1075 ≤ bound) :
    Moderate 53 bound (unpack Format.binary64 (packComponents Format.binary64 s exponent mantissa)) := by
  have hunpack : unpackExponent (packComponents Format.binary64 s exponent mantissa) = exponent :=
    unpackExponent_packComponents ..
  refine moderate_unpack ?_ hbound ?_
  · rwa [hunpack]
  · rwa [hunpack]

/-- A moderate number is unpacked as one after it was packed, if its exponent fits. -/
lemma moderate_unpack_pack (h : Moderate bits bound x) (hmin : -1074 ≤ bound) (hmax : bound ≤ 971) :
    Moderate 53 bound (unpack Format.binary64 (pack Format.binary64 x)) := by
  cases h with
  | zero s => exact moderate_unpack_packComponents s 0 0 (by decide) hmin (by simp; omega)
  | @finite s m e hpos hm he =>
    obtain ⟨biased, hbiased⟩ : ∃ biased, biased = (e + (1023 : Nat) + (52 : Nat)).toNat := ⟨_, rfl⟩
    change Moderate 53 bound (unpack Format.binary64
      (if 2 ^ 11 ≤ (e + (1023 : Nat) + (52 : Nat)).toNat + 1 then packedInfinity Format.binary64 s
      else if m.log2 + 1 = 53 then packComponents Format.binary64 s
        (BitVec.ofNat 11 (e + (1023 : Nat) + (52 : Nat)).toNat) (BitVec.ofNat 52 m)
      else packComponents Format.binary64 s 0 (BitVec.ofNat 52 m)))
    rw [← hbiased, if_neg (by omega)]
    split
    · have htoNat : (BitVec.ofNat 11 biased).toNat = biased := by
        rw [BitVec.toNat_ofNat]
        omega
      refine moderate_unpack_packComponents s _ _ (fun hall => ?_) hmin (by omega)
      have hall := congrArg BitVec.toNat hall
      rw [htoNat] at hall
      change biased = 2047 at hall
      omega
    · exact moderate_unpack_packComponents s 0 _ (by decide) hmin (by simp; omega)

/-- What is unpacked as a finite number is moderate. -/
lemma moderate_unpack_of_isFinite {b : BitVec Format.binary64.numBits}
    (h : (unpack Format.binary64 b).isFinite = true) : Moderate 53 971 (unpack Format.binary64 b) := by
  have hexponent : unpackExponent b ≠ -1#11 := by
    intro hlargest
    delta unpack at h
    dsimp only at h
    rw [if_pos hlargest, apply_ite UnpackedFloat.isFinite] at h
    change (if _ then false else false) = true at h
    rw [ite_self] at h
    cases h
  have hlt : (unpackExponent b).toNat < 2 ^ 11 := (unpackExponent b).isLt
  have hne : (unpackExponent b).toNat ≠ 2047 := fun heq => hexponent (BitVec.eq_of_toNat_eq heq)
  exact moderate_unpack hexponent (by decide) (by omega)

/-- A finite number stays so if it is negated. -/
theorem isFinite_neg {x : Float} (h : x.isFinite = true) : (-x).isFinite = true :=
  (moderate_unpack_pack (moderate_unpack_of_isFinite h).neg (by decide) (Int.le_refl _)).isFinite

/-! ### Whole numbers -/

/-- The factor by which a small whole number is multiplied when it is read. -/
lemma moderate_unpack_one : Moderate 53 0 (Float.ofBits 0x3FF0000000000000).toModel.unpack := by
  change Moderate 53 0 (.finite .positive (2 ^ 52) (-52) (by decide))
  exact .finite .positive _ (by decide) (by decide)

/-- A whole number that is not much larger than what fits in 64 bits is read as a moderate number. -/
lemma moderate_unpack_ofNat {n : Nat} (hn : n < 2 ^ 65) :
    Moderate 53 971 (Float.ofNat n).toModel.unpack := by
  change Moderate 53 971 (Float.ofScientific n false 0).toModel.unpack
  rw [Float.ofScientific]
  split
  next hsmall =>
    have hnat : n.toUInt64.toNat < 2 ^ 53 := by
      rw [show n.toUInt64 = UInt64.ofNat n from rfl, UInt64.toNat_ofNat']
      omega
    have hfactor : Moderate 53 212 n.toUInt64.toFloat.toModel.unpack :=
      moderate_unpack_pack (moderate_ofNat hnat) (by decide) (by decide)
    have hmul := moderate_mul hfactor moderate_unpack_one (by decide)
    exact moderate_unpack_pack (hmul.mono (Nat.le_refl _) (by decide)) (by decide) (Int.le_refl _)
  next hlarge =>
    have hshift : n <<< 53 * 1 < 2 ^ 118 := by
      rw [Nat.shiftLeft_eq]
      omega
    have hround : ofScientific Format.binary64 n 0 =
        roundWithAccuracy Format.binary64 .positive (n <<< 53 * 1) (-53) .exact := by
      have hmin : ¬ (0 : Int) < -((2 ^ Format.binary64.exponentBits : Int) + n.log2) := by
        rw [show Format.binary64.exponentBits = 11 from rfl]
        omega
      rw [ofScientific, dif_neg (by omega), if_neg (by decide), if_neg hmin, if_pos (by decide)]
      rfl
    have hmoderate := moderate_roundWithAccuracy .positive .exact hshift (Int.le_refl (-53)) (by decide)
    rw [← hround] at hmoderate
    exact moderate_unpack_pack (hmoderate.mono (Nat.le_refl _) (by decide)) (by decide) (Int.le_refl _)

/-- A whole number that fits in 64 bits, with or without a sign, is read as a finite number. -/
theorem isFinite_ofInt {n : Int} (hmin : -2 ^ 63 ≤ n) (hmax : n < 2 ^ 64) : (Float.ofInt n).isFinite = true := by
  cases n with
  | ofNat n =>
    rw [Int.ofNat_eq_natCast] at hmax
    exact (moderate_unpack_ofNat (by omega)).isFinite
  | negSucc n => exact isFinite_neg (moderate_unpack_ofNat (by omega)).isFinite

end DialogueSync.Numbers
