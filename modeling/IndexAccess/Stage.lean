/-!
# Stages of a path

A path moves from its creation through three working stages, any of which may be skipped, to one
of two ends: it is selected, which is possible only once its ranges are built, or discarded.
-/

namespace IndexAccess

inductive Stage where
  | created
  | equalityExtracted
  | correlatedSplit
  | rangesBuilt
  | selected
  | discarded
  deriving DecidableEq

namespace Stage

def all : List Stage :=
  [.created, .equalityExtracted, .correlatedSplit, .rangesBuilt, .selected, .discarded]

def label : Stage → String
  | .created => "created"
  | .equalityExtracted => "equality_extracted"
  | .correlatedSplit => "correlated_split"
  | .rangesBuilt => "ranges_built"
  | .selected => "selected"
  | .discarded => "discarded"

def ofLabel? (label : String) : Option Stage :=
  all.find? fun stage ↦ stage.label == label

def rank : Stage → Nat
  | .created => 0
  | .equalityExtracted => 1
  | .correlatedSplit => 2
  | .rangesBuilt => 3
  | .selected => 4
  | .discarded => 5

def order (left right : Stage) : Ordering :=
  compare left.rank right.rank

def isFinal : Stage → Bool
  | .selected | .discarded => true
  | .created | .equalityExtracted | .correlatedSplit | .rangesBuilt => false

/-- A working stage is entered only from an earlier one; no stage is left for `created`. -/
def canMove (stage next : Stage) : Bool :=
  !stage.isFinal &&
    match next with
    | .created => false
    | .equalityExtracted | .correlatedSplit | .rangesBuilt => decide (stage.rank < next.rank)
    | .selected => stage == .rangesBuilt
    | .discarded => true

theorem ofLabel?_label (stage : Stage) : ofLabel? stage.label = some stage := by
  cases stage <;> decide

theorem rank_lt_of_canMove {stage next : Stage} (h : stage.canMove next = true) :
    stage.rank < next.rank := by
  revert h
  cases stage <;> cases next <;> decide

theorem isFinal_eq_false_of_canMove {stage next : Stage} (h : stage.canMove next = true) :
    stage.isFinal = false := by
  cases stage <;> first | rfl | simp [canMove, isFinal] at h

end Stage

end IndexAccess
