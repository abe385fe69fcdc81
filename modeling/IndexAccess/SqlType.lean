import IndexAccess.Collation

/-!
# SQL types

The declared type of a column or value: a kind and a collation.  Only the kinds that evaluate as
strings compare under their collation.
-/

namespace IndexAccess

inductive SqlKind where
  | int
  | unsignedInt
  | decimal
  | double
  | char
  | varchar
  | text
  | blob
  | enumeration
  | set
  | date
  | datetime
  | json
  deriving DecidableEq

namespace SqlKind

def all : List SqlKind :=
  [.int, .unsignedInt, .decimal, .double, .char, .varchar, .text, .blob, .enumeration, .set,
    .date, .datetime, .json]

def label : SqlKind → String
  | .int => "int"
  | .unsignedInt => "unsigned_int"
  | .decimal => "decimal"
  | .double => "double"
  | .char => "char"
  | .varchar => "varchar"
  | .text => "text"
  | .blob => "blob"
  | .enumeration => "enum"
  | .set => "set"
  | .date => "date"
  | .datetime => "datetime"
  | .json => "json"

def ofLabel? (label : String) : Option SqlKind :=
  all.find? fun kind ↦ kind.label == label

/-- Values of these kinds evaluate as strings. -/
def isString : SqlKind → Bool
  | .char | .varchar | .text | .blob | .enumeration | .set => true
  | .int | .unsignedInt | .decimal | .double | .date | .datetime | .json => false

/-- The kind as a JSON document. -/
def toJson (kind : SqlKind) : String :=
  "\"" ++ kind.label ++ "\""

theorem ofLabel?_label (kind : SqlKind) : ofLabel? kind.label = some kind := by
  cases kind <;> decide

end SqlKind

structure SqlType where
  kind : SqlKind
  collation : Collation
  deriving DecidableEq

namespace SqlType

def plain (kind : SqlKind) : SqlType := ⟨kind, .binary⟩

def isString (type : SqlType) : Bool := type.kind.isString

end SqlType

end IndexAccess
