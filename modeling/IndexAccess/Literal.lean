import IndexAccess.Decimal.Layout

/-!
# Constant values

The value of a constant in a filter, its text, and equality as a number of its own kind: a value
that is not a number differs from itself, and the two zeros are equal.
-/

namespace IndexAccess

inductive Literal where
  | null
  | int (value : Int64)
  | uint (value : UInt64)
  | float (value : Binary64)
  | text (value : String)
  | bytes (value : List UInt8)
  deriving DecidableEq

namespace Literal

def isNull : Literal → Bool
  | .null => true
  | _ => false

def equal : Literal → Literal → Bool
  | .null, .null => true
  | .int a, .int b => a == b
  | .uint a, .uint b => a == b
  | .float a, .float b => a.equal b
  | .text a, .text b => a == b
  | .bytes a, .bytes b => a == b
  | _, _ => false

theorem equal_comm (left right : Literal) : left.equal right = right.equal left := by
  cases left with
  | null => cases right <;> rfl
  | int a => cases right with
    | int b => exact BEq.comm
    | _ => rfl
  | uint a => cases right with
    | uint b => exact BEq.comm
    | _ => rfl
  | float a => cases right with
    | float b => exact Binary64.equal_comm a b
    | _ => rfl
  | text a => cases right with
    | text b => exact BEq.comm
    | _ => rfl
  | bytes a => cases right with
    | bytes b => exact BEq.comm
    | _ => rfl

/-- Two lower-case hexadecimal digits. -/
def hexByte (byte : UInt8) : String :=
  String.ofList [Nat.digitChar (byte.toNat / 16), Nat.digitChar (byte.toNat % 16)]

/-- Text is quoted but nothing in it is escaped. -/
def render : Literal → String
  | .null => "NULL"
  | .int value => toString value.toInt
  | .uint value => toString value.toNat
  | .float value => Decimal.plain value
  | .text value => "'" ++ value ++ "'"
  | .bytes value => "0x" ++ String.join (value.map hexByte)

end Literal

end IndexAccess
