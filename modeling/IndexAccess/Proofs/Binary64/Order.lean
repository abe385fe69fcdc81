import IndexAccess.Binary64
import Mathlib.Algebra.Order.Field.Rat
import Mathlib.Algebra.Order.Field.Power
import Mathlib.Order.Monotone.Odd

/-!
# Comparison of finite numbers

A finite word stands for a rational number, and words are compared without looking at it: the
magnitudes are compared as naturals and the sign decides the direction.  This is right because the
number of smallest units in a magnitude, `2 ^ (-1074)` each, grows with the magnitude; where the
fraction runs over, the next exponent goes on from there.
-/

namespace IndexAccess.Binary64

/-- The number that a finite word stands for. -/
def value (x : Binary64) : ℚ :=
  (if x.isNegative then -1 else 1) * (x.decode.1 * 2 ^ x.decode.2)

/-! ## Units -/

/-- The number of smallest units in a magnitude. -/
def units (magnitude : Nat) : Nat :=
  if magnitude / fractionLimit = 0 then magnitude % fractionLimit
  else (fractionLimit + magnitude % fractionLimit) * 2 ^ (magnitude / fractionLimit - 1)

theorem units_lt_units_succ (magnitude : Nat) : units magnitude < units (magnitude + 1) := by
  have hsplit := Nat.div_add_mod magnitude fractionLimit
  have hfraction : magnitude % fractionLimit < fractionLimit := Nat.mod_lt _ (by decide)
  unfold units
  generalize magnitude / fractionLimit = exponent at *
  generalize magnitude % fractionLimit = fraction at *
  by_cases hcarry : fraction + 1 = fractionLimit
  · have hsucc : magnitude + 1 = fractionLimit * (exponent + 1) := by
      rw [← hsplit, Nat.add_assoc, hcarry]
      rfl
    have hdiv : (magnitude + 1) / fractionLimit = exponent + 1 := by
      rw [hsucc]
      exact Nat.mul_div_cancel_left _ (by decide)
    have hmod : (magnitude + 1) % fractionLimit = 0 := by
      rw [hsucc]
      exact Nat.mul_mod_right _ _
    rw [hdiv, hmod, if_neg (Nat.succ_ne_zero exponent), Nat.add_sub_cancel, Nat.add_zero]
    cases exponent with
    | zero => simpa using hfraction
    | succ exponent =>
      rw [if_neg (Nat.succ_ne_zero exponent), Nat.add_sub_cancel, pow_succ', ← Nat.mul_assoc]
      exact Nat.mul_lt_mul_of_pos_right (by omega) (Nat.two_pow_pos exponent)
  · have hsucc : magnitude + 1 = fractionLimit * exponent + (fraction + 1) := by
      omega
    have hlt : fraction + 1 < fractionLimit := by
      omega
    have hdiv : (magnitude + 1) / fractionLimit = exponent := by
      rw [hsucc, Nat.mul_add_div (by decide), Nat.div_eq_of_lt hlt, Nat.add_zero]
    have hmod : (magnitude + 1) % fractionLimit = fraction + 1 := by
      rw [hsucc, Nat.mul_add_mod, Nat.mod_eq_of_lt hlt]
    rw [hdiv, hmod]
    split
    · exact Nat.lt_succ_self fraction
    · exact Nat.mul_lt_mul_of_pos_right (by omega) (Nat.two_pow_pos _)

theorem strictMono_units : StrictMono units := strictMono_nat_of_lt_succ units_lt_units_succ

/-- The units of the number with a key, with its sign. -/
def signedUnits (key : Int) : Int := key.sign * units key.natAbs

theorem signedUnits_neg (key : Int) : signedUnits (-key) = -signedUnits key := by
  unfold signedUnits
  rw [Int.sign_neg, Int.natAbs_neg, Int.neg_mul]

theorem signedUnits_natCast (magnitude : Nat) : signedUnits magnitude = units magnitude := by
  unfold signedUnits
  cases magnitude with
  | zero => rfl
  | succ magnitude =>
    rw [Int.sign_eq_one_of_pos (Int.natCast_pos.mpr magnitude.succ_pos), Int.one_mul,
      Int.natAbs_natCast]

/-- The units keep the order of the keys. -/
theorem signedUnits_le_iff {low high : Int} : signedUnits low ≤ signedUnits high ↔ low ≤ high := by
  have hmono : StrictMono signedUnits := by
    apply strictMono_of_odd_strictMonoOn_nonneg signedUnits_neg
    intro low hlow high hhigh hlt
    obtain ⟨low, rfl⟩ := Int.eq_ofNat_of_zero_le hlow
    obtain ⟨high, rfl⟩ := Int.eq_ofNat_of_zero_le hhigh
    rw [signedUnits_natCast, signedUnits_natCast]
    exact Int.ofNat_lt.mpr (strictMono_units (Int.ofNat_lt.mp hlt))
  exact hmono.le_iff_le

/-! ## Values -/

/-- The smallest positive number. -/
def unit : ℚ := 2 ^ (-1074 : Int)

theorem decode_eq_units (x : Binary64) :
    (x.decode.1 * 2 ^ x.decode.2 : ℚ) = units x.magnitude * unit := by
  unfold decode units
  dsimp only
  generalize x.magnitude / fractionLimit = exponent
  split
  · rfl
  · next hexponent =>
    have hsum : (exponent : Int) - 1075 = ((exponent - 1 : Nat) : Int) + -1074 := by
      omega
    rw [hsum, zpow_add₀ two_ne_zero, zpow_natCast, ← mul_assoc, Nat.cast_mul, Nat.cast_pow,
      Nat.cast_ofNat]
    rfl

theorem value_eq_signedUnits (x : Binary64) : x.value = signedUnits x.key * unit := by
  unfold value key
  rw [decode_eq_units]
  cases x.isNegative with
  | true =>
    rw [if_pos rfl, if_pos rfl, signedUnits_neg, signedUnits_natCast, Int.cast_neg, neg_mul,
      neg_mul, one_mul]
    rfl
  | false =>
    rw [if_neg Bool.false_ne_true, if_neg Bool.false_ne_true, signedUnits_natCast, one_mul]
    rfl

theorem value_zero : zero.value = 0 := by
  rw [value_eq_signedUnits, show zero.key = 0 from rfl, show signedUnits 0 = 0 from rfl,
    Int.cast_zero, zero_mul]

/-- Finite words compare as the numbers that they stand for. -/
theorem le_iff_value_le {x y : Binary64} (hx : x.isFinite = true) (hy : y.isFinite = true) :
    x.le y = true ↔ x.value ≤ y.value := by
  have hunit : 0 < unit := zpow_pos two_pos _
  unfold le
  rw [isNaN_eq_false_of_isFinite hx, isNaN_eq_false_of_isFinite hy, value_eq_signedUnits,
    value_eq_signedUnits, mul_le_mul_iff_left₀ hunit, Int.cast_le, signedUnits_le_iff]
  simp

end IndexAccess.Binary64
