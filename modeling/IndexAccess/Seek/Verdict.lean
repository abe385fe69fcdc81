import IndexAccess.Expr

/-!
# Filters that allow a seek

A filter allows a seek on a column when it is an equality between that column, on either side, and
a constant or a correlated column.  Where the column is a string, the equality must also be
decided under a collation compatible with the column's own.
-/

namespace IndexAccess.Seek

inductive Verdict where
  | usable
  /-- The right shape, compared under a collation that the column's does not certify. -/
  | incompatible
  | unrelated
  deriving DecidableEq

/-- Values that are fixed during one scan. -/
def isFixed : Expr → Bool
  | .constant .. => true
  | .correlated _ => true
  | .column _ => false
  | .call .. => false

/-- The verdict on an equality of `side` and `value`, with the column expected as `side`. -/
def judgeSides (compatible : Compatibility) (target : Column) (collation : Collation)
    (side value : Expr) : Verdict :=
  match side with
  | .column c =>
    if isFixed value && c.sameAs target then
      if target.isString && !compatible collation target.type.collation then .incompatible
      else .usable
    else .unrelated
  | .constant .. => .unrelated
  | .correlated _ => .unrelated
  | .call .. => .unrelated

/-- The second operand order is tried only if the first one is unrelated to the column. -/
def judge (compatible : Compatibility) (target : Column) : Expr → Verdict
  | .call .eq [left, right] collation =>
    match judgeSides compatible target collation left right with
    | .unrelated => judgeSides compatible target collation right left
    | verdict => verdict
  | _ => .unrelated

def allows (compatible : Compatibility) (target : Column) (filter : Expr) : Bool :=
  judge compatible target filter == .usable

end IndexAccess.Seek
