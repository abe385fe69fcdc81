import IndexAccess.Expr
import IndexAccess.Fault
import IndexAccess.Stage

/-!
# Errors on a path

Every way in which an operation on a path, on a union of paths or on a set of candidates can be
refused.  Each one is a cause; the wording is in `PathError.message`.
-/

namespace IndexAccess

/-- The operations that need a path over a single index. -/
inductive IndexOperation where
  | equalityExtraction
  | correlatedSplit
  | filterSeparation
  deriving DecidableEq

def IndexOperation.label : IndexOperation → String
  | .equalityExtraction => "equality extraction"
  | .correlatedSplit => "correlated split"
  | .filterSeparation => "index filter split"

inductive PathError where
  | illegalMove (source target : Stage)
  | noSingleIndex (operation : IndexOperation)
  | prefixOutOfRange (prefixCount keys : Nat)
  | equalitiesExceedPrefix (equalities prefixCount : Nat)
  | conditionsOffPrefix (conditions expected : Nat)
  | notARowCount (value : Binary64)
  | growingEstimates (access index : Binary64) (table : Option Binary64)
  | emptyUnion
  | nestedUnion
  | duplicatedFilter (filter : Expr)
  | unionsDisabled
  | noSuchCandidate (position candidates : Nat)
  | unforcedCandidate (position : Nat)
  | alreadySelected

namespace PathError

def message : PathError → String
  | .illegalMove source target =>
    "invalid access path transition: " ++ source.label ++ " -> " ++ target.label
  | .noSingleIndex operation => operation.label ++ " requires a single-index access path"
  | .prefixOutOfRange prefixCount keys =>
    "equality prefix of " ++ toString prefixCount ++ " exceeds " ++ toString keys ++
      " index columns"
  | .equalitiesExceedPrefix equalities prefixCount =>
    "equality count " ++ toString equalities ++ " exceeds equality-or-in count " ++
      toString prefixCount
  | .conditionsOffPrefix conditions expected =>
    toString conditions ++ " access conditions do not match an equality prefix of " ++
      toString expected
  | .notARowCount value =>
    "row count estimate " ++ Decimal.plain value ++ " is not a finite non-negative number"
  | .growingEstimates access index table =>
    "selectivity grows: access " ++ Decimal.plain access ++ ", index " ++ Decimal.plain index ++
      ", table " ++ (table.map Decimal.plain).getD "unknown"
  | .emptyUnion => "index merge requires at least one partial path"
  | .nestedUnion => "index merge partial paths must be single-index paths"
  | .duplicatedFilter filter =>
    "index merge residual filter " ++ filter.render ++ " is duplicated into a partial path"
  | .unionsDisabled => "index merge is disabled by planner config"
  | .noSuchCandidate position candidates =>
    "candidate " ++ toString position ++ " is out of range for " ++ toString candidates ++
      " candidates"
  | .unforcedCandidate position =>
    "candidate " ++ toString position ++ " is not forced while forced candidates exist"
  | .alreadySelected => "a candidate has already been selected for this table"

/-- An error that ends the planning of the query. -/
def toFault (error : PathError) : Fault :=
  ⟨.invariantViolation, .path, error.message⟩

end PathError

/-- The stage reached by a move, or the refusal of the move. -/
def Stage.moveTo (stage next : Stage) : Except PathError Stage :=
  if stage.canMove next then .ok next else .error (.illegalMove stage next)

end IndexAccess
