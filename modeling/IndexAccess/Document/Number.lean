import IndexAccess.Binary64
import IndexAccess.Decimal.Layout
import IndexAccess.Document.Reader

/-!
# Numbers of a document

A number without point and exponent is an integer as long as it fits 64 bits, signed or unsigned;
every other number is a double.  A double is formed from the digits that fit 64 bits, scaled by a
power of ten in steps of at most `10 ^ 308`, each step rounded.
-/

namespace IndexAccess.Document

inductive Number where
  | integer (value : Int)
  | real (value : Binary64)

namespace Number

/-- The number as a finding in a message. -/
def describe : Number → String
  | .integer value => "integer " ++ ticked (toString value)
  | .real value => "floating point " ++ ticked (Decimal.compact value)

/-- Significands stay below 64 bits, exponents below 31. -/
def wordLimit : Nat := 0x10000000000000000

def exponentLimit : Nat := 0x80000000

def largestStep : Nat := 308

def powerOfTen (n : Nat) : Binary64 := .ofInt (Nat.pow 10 n : Nat)

/-- Divides by `10 ^ n`; a number that has become zero stays zero. -/
def scaleDown (x : Binary64) (n : Nat) : Binary64 :=
  if n ≤ largestStep then x.divMagnitude (powerOfTen n)
  else if x.magnitude = 0 then x
  else scaleDown (x.divMagnitude (powerOfTen largestStep)) (n - largestStep)
termination_by n
decreasing_by simp only [largestStep] at *; omega

/-- The double for `significand * 10 ^ exponent`; none when it is too large. -/
def scale? (significand : Nat) (exponent : Int) : Option Binary64 :=
  let x := Binary64.ofInt significand
  if exponent < 0 then some (scaleDown x exponent.natAbs)
  else if exponent.toNat ≤ largestStep then
    let scaled := x.mulMagnitude (powerOfTen exponent.toNat)
    if scaled.isFinite then some scaled else none
  else if x.magnitude = 0 then some x
  else none

def signed (isNegative : Bool) (x : Binary64) : Number :=
  .real (.ofMagnitude isNegative x.magnitude)

/-- The largest magnitude of a negative integer is `2 ^ 63`; negative zero is a double. -/
def ofDigits (isNegative : Bool) (significand : Nat) : Number :=
  if !isNegative then .integer significand
  else if significand = 0 ∨ Binary64.signBit < significand then signed true (.ofInt significand)
  else .integer (-significand)

end Number

namespace Reader

open Number

def scaled (isNegative : Bool) (significand : Nat) (exponent : Int) : Reader Number :=
  match scale? significand exponent with
  | some x => return signed isNegative x
  | none => flawHere .numberOutOfRange

/-- Digits taken into a significand as long as it fits a word. -/
structure Significand where
  value : Nat
  digits : Nat
  /-- A digit comes next that does not fit. -/
  isFull : Bool

def significand (value : Nat) : Reader Significand := do
  loop (← bytesLeft) value 0
where
  loop : Nat → Nat → Nat → Reader Significand
    | 0, value, digits => return ⟨value, digits, false⟩
    | fuel + 1, value, digits => do
      match ← peekDigit with
      | none => return ⟨value, digits, false⟩
      | some digit =>
        if wordLimit ≤ 10 * value + digit then return ⟨value, digits, true⟩
        else
          eat
          loop fuel (10 * value + digit) (digits + 1)

/-- The digits of an exponent; none when they exceed the limit. -/
def exponentDigits (value : Nat) : Reader (Option Nat) := do
  loop (← bytesLeft) value
where
  loop : Nat → Nat → Reader (Option Nat)
    | 0, value => return some value
    | fuel + 1, value => do
      match ← peekDigit with
      | none => return some value
      | some digit =>
        eat
        if exponentLimit ≤ 10 * value + digit then return none
        else loop fuel (10 * value + digit)

/-- An exponent, from its letter on; `start` is the power of ten that the digits stand for. -/
def exponent (isNegative : Bool) (significand : Nat) (start : Int) : Reader Number := do
  eat
  let isDown ← match ← peek with
    | some Byte.plus => do eat; pure false
    | some Byte.minus => do eat; pure true
    | _ => pure false
  match ← next with
  | none => flawHere .endInValue
  | some byte =>
    if isDigit byte then
      match ← exponentDigits (byte.toNat - 0x30) with
      | some n =>
        scaled isNegative significand (if isDown then start - (n : Int) else start + (n : Int))
      | none =>
        if significand ≠ 0 ∧ !isDown then flawHere .numberOutOfRange
        else
          let _ ← skipDigits
          return signed isNegative .zero
    else flawHere .invalidNumber

def exponentOrEnd (isNegative : Bool) (significand : Nat) (start : Int) : Reader Number := do
  match ← peek with
  | some Byte.lowerE => exponent isNegative significand start
  | some Byte.upperE => exponent isNegative significand start
  | _ => scaled isNegative significand start

/-- A fraction, from its point on.  Digits that do not fit the significand are passed over. -/
def fraction (isNegative : Bool) (whole : Nat) (start : Int) : Reader Number := do
  eat
  let read ← significand whole
  if read.isFull then
    let _ ← skipDigits
    exponentOrEnd isNegative read.value (start - (read.digits : Int))
  else if read.digits = 0 then
    match ← peek with
    | none => flawAhead .endInValue
    | some _ => flawAhead .invalidNumber
  else exponentOrEnd isNegative read.value (start - (read.digits : Int))

/-- What may follow the whole digits when all of them fitted the significand. -/
def afterWhole (isNegative : Bool) (whole : Nat) : Reader Number := do
  match ← peek with
  | some Byte.point => fraction isNegative whole 0
  | some Byte.lowerE => exponent isNegative whole 0
  | some Byte.upperE => exponent isNegative whole 0
  | _ => return ofDigits isNegative whole

/-- Whole digits beyond the significand count as powers of ten. -/
def afterFull (isNegative : Bool) (significand : Nat) : Reader Number := do
  let dropped : Int := (← skipDigits : Nat)
  match ← peek with
  | some Byte.point => fraction isNegative significand dropped
  | _ => exponentOrEnd isNegative significand dropped

/-- A number after its sign. -/
def number (isNegative : Bool) : Reader Number := do
  match ← next with
  | none => flawHere .endInValue
  | some Byte.zero =>
    match ← peekDigit with
    | some _ => flawAhead .invalidNumber
    | none => afterWhole isNegative 0
  | some byte =>
    if isDigit byte then
      let read ← significand (byte.toNat - 0x30)
      if read.isFull then afterFull isNegative read.value
      else afterWhole isNegative read.value
    else flawHere .invalidNumber

/-- A number that begins at the next byte. -/
def signedNumber : Reader Number := do
  match ← peek with
  | some Byte.minus => do eat; number true
  | _ => number false

end Reader

end IndexAccess.Document
