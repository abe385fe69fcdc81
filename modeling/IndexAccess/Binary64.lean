/-!
# Double-precision numbers

A row estimate, or a number in a filter, is a 64-bit IEEE word.  Comparison is decided on the
word: apart from the words that are not numbers, the sign and the remaining 63 bits order the
values, and the two zeros share one key.  Rounding goes from an exact ratio of naturals to the
nearest word, a tie to the even one.
-/

namespace IndexAccess

/-- A double-precision number, held as its word. -/
structure Binary64 where
  bits : UInt64
  deriving DecidableEq, Inhabited

namespace Binary64

def zero : Binary64 := ⟨0⟩

/-- The value of the sign bit of a word. -/
def signBit : Nat := 0x8000000000000000

/-- The value of the last exponent bit, next above the 52 bits of the fraction. -/
def fractionLimit : Nat := 0x10000000000000

/-- The magnitude of both infinities: all exponent bits and no fraction bit. -/
def infinity : Nat := 0x7FF0000000000000

def isNegative (x : Binary64) : Bool :=
  decide (signBit ≤ x.bits.toNat)

/-- The word without its sign. -/
def magnitude (x : Binary64) : Nat :=
  x.bits.toNat % signBit

def isFinite (x : Binary64) : Bool :=
  decide (x.magnitude < infinity)

def isNaN (x : Binary64) : Bool :=
  decide (infinity < x.magnitude)

/-! ## Order -/

/-- Numbers compare as these integers do. -/
def key (x : Binary64) : Int :=
  if x.isNegative then -(x.magnitude : Int) else x.magnitude

def le (x y : Binary64) : Bool :=
  !x.isNaN && !y.isNaN && decide (x.key ≤ y.key)

def lt (x y : Binary64) : Bool :=
  !x.isNaN && !y.isNaN && decide (x.key < y.key)

/-- Equality of numbers: the two zeros are equal, and a word that is no number equals nothing. -/
def equal (x y : Binary64) : Bool :=
  !x.isNaN && !y.isNaN && decide (x.key = y.key)

/-! ## Exact values and rounding -/

/-- A finite magnitude as `(m, q)`, standing for `m * 2 ^ q`. -/
def decode (x : Binary64) : Nat × Int :=
  let exponent : Nat := x.magnitude / fractionLimit
  let fraction : Nat := x.magnitude % fractionLimit
  if exponent = 0 then (fraction, -1074)
  else (fractionLimit + fraction, (exponent : Int) - 1075)

/-- A finite magnitude as numerator and denominator. -/
def ratio (x : Binary64) : Nat × Nat :=
  let (m, q) := x.decode
  (m * Nat.pow 2 q.toNat, Nat.pow 2 (-q).toNat)

/-- The natural number nearest to `n / d`, a tie to the even one. -/
def divNearest (n d : Nat) : Nat :=
  let quotient := n / d
  let twice := 2 * (n % d)
  if d < twice ∨ (twice = d ∧ quotient % 2 = 1) then quotient + 1 else quotient

/-- The magnitude nearest to `n / d`; infinite when no finite one is near enough. -/
def nearest (n d : Nat) : Nat :=
  if n = 0 ∨ d = 0 then 0
  else
    let guess : Int := (n.log2 : Int) - d.log2 - 52
    let reaches :=
      decide (fractionLimit * (d * Nat.pow 2 guess.toNat) ≤ n * Nat.pow 2 (-guess).toNat)
    let q := max (-1074) (if reaches then guess else guess - 1)
    let m := divNearest (n * Nat.pow 2 (-q).toNat) (d * Nat.pow 2 q.toNat)
    min infinity ((q + 1074).toNat * fractionLimit + m)

def ofMagnitude (negative : Bool) (magnitude : Nat) : Binary64 :=
  ⟨UInt64.ofNat (if negative then signBit + magnitude else magnitude)⟩

def ofInt (n : Int) : Binary64 :=
  ofMagnitude (decide (n < 0)) (nearest n.natAbs 1)

/-- Product of the magnitudes of two finite numbers. -/
def mulMagnitude (x y : Binary64) : Binary64 :=
  ofMagnitude false (nearest (x.ratio.1 * y.ratio.1) (x.ratio.2 * y.ratio.2))

/-- Quotient of the magnitudes of two finite numbers. -/
def divMagnitude (x y : Binary64) : Binary64 :=
  ofMagnitude false (nearest (x.ratio.1 * y.ratio.2) (x.ratio.2 * y.ratio.1))

/-! ## Laws of the order -/

theorem equal_comm (x y : Binary64) : x.equal y = y.equal x := by
  simp only [equal, eq_comm (a := x.key)]
  cases x.isNaN <;> cases y.isNaN <;> rfl

theorem lt_eq_not_le {x y : Binary64} (hx : x.isNaN = false) (hy : y.isNaN = false) :
    x.lt y = !y.le x := by
  have hkey : x.key < y.key ↔ ¬ y.key ≤ x.key := by omega
  simp only [lt, le, hx, hy, hkey, decide_not, Bool.not_false, Bool.true_and]

theorem isNaN_eq_false_of_isFinite {x : Binary64} (h : x.isFinite = true) : x.isNaN = false := by
  simp only [isFinite, isNaN, decide_eq_true_eq, decide_eq_false_iff_not] at *
  omega

end Binary64

end IndexAccess
