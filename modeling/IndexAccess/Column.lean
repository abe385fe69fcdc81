import IndexAccess.SqlType

/-!
# Columns

A column has a planner-wide identity.  A reference to it in a filter may carry another name, but
only one with the same identity and the same declared type stands for the column in a seek.
-/

namespace IndexAccess

abbrev ColumnId := UInt64

structure Column where
  id : ColumnId
  name : String
  type : SqlType
  deriving DecidableEq

namespace Column

/-- Same identity and same declared type; the names may differ. -/
def sameAs (left right : Column) : Bool :=
  left.id == right.id && left.type == right.type

def isString (column : Column) : Bool := column.type.isString

def idLabel (id : ColumnId) : String := "#" ++ toString id

theorem sameAs_iff {left right : Column} :
    left.sameAs right = true ↔ left.id = right.id ∧ left.type = right.type := by
  simp [sameAs]

end Column

end IndexAccess
