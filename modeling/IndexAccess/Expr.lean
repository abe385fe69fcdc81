import IndexAccess.Column
import IndexAccess.Literal

/-!
# Filter expressions

An expression is a column of the scanned table, a constant, a column of an enclosing query, whose
value is fixed during one scan, or an operator applied to expressions under a collation.
-/

namespace IndexAccess

inductive Operator where
  | eq
  | ne
  | lt
  | le
  | gt
  | ge
  | isIn
  | and
  | or
  | not
  | like
  | isNull
  | other (name : String)
  deriving DecidableEq

namespace Operator

def label : Operator → String
  | .eq => "eq"
  | .ne => "ne"
  | .lt => "lt"
  | .le => "le"
  | .gt => "gt"
  | .ge => "ge"
  | .isIn => "in"
  | .and => "and"
  | .or => "or"
  | .not => "not"
  | .like => "like"
  | .isNull => "isnull"
  | .other name => name

/-- The operators with a meaning of their own. -/
def named : List Operator :=
  [.eq, .ne, .lt, .le, .gt, .ge, .isIn, .and, .or, .not, .like, .isNull]

def ofLabel? (label : String) : Option Operator :=
  named.find? fun operator ↦ operator.label == label

end Operator

inductive Expr where
  | column (column : Column)
  | constant (value : Literal) (type : SqlType)
  | correlated (column : Column)
  | call (operator : Operator) (arguments : List Expr) (collation : Collation)

namespace Expr

/-! ## Columns -/

mutual

/-- The columns of the scanned table, from left to right, with repetitions. -/
def columns : Expr → List Column
  | .column c => [c]
  | .constant .. => []
  | .correlated _ => []
  | .call _ arguments _ => columnsOfAll arguments

def columnsOfAll : List Expr → List Column
  | [] => []
  | e :: es => e.columns ++ columnsOfAll es

end

mutual

/-- Whether the value depends on an enclosing query. -/
def isCorrelated : Expr → Bool
  | .column _ => false
  | .constant .. => false
  | .correlated _ => true
  | .call _ arguments _ => anyCorrelated arguments

def anyCorrelated : List Expr → Bool
  | [] => false
  | e :: es => e.isCorrelated || anyCorrelated es

end

/-! ## Equality -/

mutual

/-- Same shape, names and types, and equal constants in the sense of `Literal.equal`. -/
def equal : Expr → Expr → Bool
  | .column a, .column b => a == b
  | .constant v s, .constant w t => v.equal w && s == t
  | .correlated a, .correlated b => a == b
  | .call f as c, .call g bs d => f == g && allEqual as bs && c == d
  | _, _ => false

def allEqual : List Expr → List Expr → Bool
  | [], [] => true
  | a :: as, b :: bs => a.equal b && allEqual as bs
  | _, _ => false

end

mutual

theorem equal_comm (left right : Expr) : left.equal right = right.equal left := by
  match left, right with
  | .column a, .column b => exact BEq.comm
  | .constant v s, .constant w t => rw [equal, equal, v.equal_comm w, BEq.comm (a := s)]
  | .correlated a, .correlated b => exact BEq.comm
  | .call f as c, .call g bs d =>
    rw [equal, equal, allEqual_comm as bs, BEq.comm (a := f), BEq.comm (a := c)]
  | .column _, .constant .. | .column _, .correlated _ | .column _, .call .. => rfl
  | .constant .., .column _ | .constant .., .correlated _ | .constant .., .call .. => rfl
  | .correlated _, .column _ | .correlated _, .constant .. | .correlated _, .call .. => rfl
  | .call .., .column _ | .call .., .constant .. | .call .., .correlated _ => rfl

theorem allEqual_comm (left right : List Expr) : allEqual left right = allEqual right left := by
  match left, right with
  | [], [] => rfl
  | [], _ :: _ => rfl
  | _ :: _, [] => rfl
  | a :: as, b :: bs => rw [allEqual, allEqual, a.equal_comm b, allEqual_comm as bs]

end

/-! ## Text -/

mutual

def render : Expr → String
  | .column c => c.name
  | .constant value _ => value.render
  | .correlated c => "?" ++ c.name
  | .call operator arguments _ => operator.label ++ "(" ++ renderAll arguments ++ ")"

/-- The texts of the arguments, with a comma and a blank between them. -/
def renderAll : List Expr → String
  | [] => ""
  | [e] => e.render
  | e :: es => e.render ++ ", " ++ renderAll es

end

end Expr

end IndexAccess
