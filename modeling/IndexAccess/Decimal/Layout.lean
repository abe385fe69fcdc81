import IndexAccess.Decimal.Shortest

/-!
# Layouts of decimal text

The plain layout writes every digit and never an exponent: `1`, `0.0000001`, `-0`.  It is the text
of numbers in filters and in messages about row estimates.  The compact layout is that of numbers
in messages about a document: a point and a digit after it are always written, and very large and
very small numbers take a signed exponent.
-/

namespace IndexAccess.Decimal

def zeros (n : Nat) : String :=
  String.ofList (List.replicate n '0')

/-- Digits with the point after `place` of them; zeros fill the gap on either side. -/
def positional (digits : String) (place : Int) : String :=
  let count : Int := digits.length
  if place ≤ 0 then "0." ++ zeros (-place).toNat ++ digits
  else if count ≤ place then digits ++ zeros (place - count).toNat
  else
    let cs := digits.toList
    String.ofList (cs.take place.toNat) ++ "." ++ String.ofList (cs.drop place.toNat)

/-- Digits after the first one follow a point; the exponent always has its sign. -/
def exponential (digits : String) (place : Int) : String :=
  let cs := digits.toList
  let head := String.ofList (cs.take 1)
  let tail := String.ofList (cs.drop 1)
  let exponent := place - 1
  let sign := if exponent < 0 then "-" else "+"
  head ++ (if tail.isEmpty then "" else "." ++ tail) ++ "e" ++ sign ++ toString exponent.natAbs

def signed (x : Binary64) (text : String) : String :=
  if x.isNegative then "-" ++ text else text

/-- The shortest digits of a finite number and the place of the point among them. -/
def digitsOf (x : Binary64) (tie : Tie) : String × Int :=
  let (m, q) := x.decode
  let s := Dyadic.shortest ⟨m, q⟩ tie
  let text := toString s.digits
  (text, text.length + s.exponent)

def plain (x : Binary64) : String :=
  if x.isNaN then "NaN"
  else if !x.isFinite then signed x "inf"
  else if x.magnitude = 0 then signed x "0"
  else
    let (digits, place) := digitsOf x .away
    signed x (positional digits place)

def compact (x : Binary64) : String :=
  if x.isNaN then "NaN"
  else if !x.isFinite then signed x "inf"
  else if x.magnitude = 0 then signed x "0.0"
  else
    let (digits, place) := digitsOf x .toEven
    let text :=
      if place ≤ -5 ∨ 16 < place then exponential digits place
      else if (digits.length : Int) ≤ place then positional digits place ++ ".0"
      else positional digits place
    signed x text

end IndexAccess.Decimal
