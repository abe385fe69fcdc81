import IndexAccess.BoundColumns
import IndexAccess.RowEstimates
import IndexAccess.Settings

/-!
# Access paths

A path is one way of reading a table: the whole table, one index, or the union of several paths.
A branch of a union is itself a path over the table or one index, never a union; so the record of
planning state is shared between paths and branches and differs in its mode alone.
-/

namespace IndexAccess

inductive Storage where
  | row
  | columnar
  deriving DecidableEq

/-- A path that is no union. -/
inductive Single where
  | table (primaryKey : Option Column)
  | index (index : Index)

/-- Planning state of a path: the stage, the conditions bound to a prefix of the index, how many of
these are equalities, or equalities and lists, and the filters that are left to be checked on the
index entry or on the table row. -/
structure Access (Mode : Type) where
  mode : Mode
  stage : Stage
  conditions : List Expr
  equalityCount : Nat
  prefixCount : Nat
  indexFilters : List Expr
  tableFilters : List Expr
  estimates : Option RowEstimates
  storage : Storage
  remote : Bool
  forced : Bool

abbrev Branch := Access Single

inductive Mode where
  | single (single : Single)
  | union (branches : List Branch) (disjunctive : Bool)

abbrev Path := Access Mode

/-! ## Construction -/

namespace Access

/-- A path at its creation, where every filter is one to be checked on the table row. -/
def create {Mode : Type} (mode : Mode) (filters : List Expr) : Access Mode where
  mode := mode
  stage := .created
  conditions := []
  equalityCount := 0
  prefixCount := 0
  indexFilters := []
  tableFilters := filters
  estimates := none
  storage := .row
  remote := false
  forced := false

/-- The same state in another mode. -/
def withMode {Mode Mode' : Type} (access : Access Mode) (mode : Mode') : Access Mode' :=
  { access with mode }

end Access

namespace Path

def table (primaryKey : Option Column) (filters : List Expr) : Path :=
  .create (.single (.table primaryKey)) filters

def index (index : Index) (filters : List Expr) : Path :=
  .create (.single (.index index)) filters

/-! ## Views -/

def index? (path : Path) : Option Index :=
  match path.mode with
  | .single (.index index) => some index
  | .single (.table _) => none
  | .union .. => none

def primaryKey? (path : Path) : Option Column :=
  match path.mode with
  | .single (.table primaryKey) => primaryKey
  | .single (.index _) => none
  | .union .. => none

def isTable (path : Path) : Bool :=
  match path.mode with
  | .single (.table _) => true
  | .single (.index _) => false
  | .union .. => false

def isUnion (path : Path) : Bool :=
  match path.mode with
  | .single _ => false
  | .union .. => true

def isDisjunctive (path : Path) : Bool :=
  match path.mode with
  | .single _ => false
  | .union _ disjunctive => disjunctive

def branches (path : Path) : List Branch :=
  match path.mode with
  | .single _ => []
  | .union branches _ => branches

/-- The key columns of the index; none for a table or a union. -/
def keys (path : Path) : List KeyColumn :=
  match path.index? with
  | some index => index.keys
  | none => []

/-- The columns bound by the access conditions. -/
def boundColumns (path : Path) : BoundColumns :=
  .ofList ((path.keys.zip path.conditions).map fun (key, _) ↦ (key.id, key.kept))

/-- A path can be ranked by cost once its ranges are built and its estimates do not grow. -/
def isRankable (path : Path) : Bool :=
  path.stage == .rangesBuilt &&
    match path.estimates with
    | none => false
    | some estimates => (estimates.check true).isOk

end Path

/-! ## Branches -/

def Branch.toPath (branch : Branch) : Path := branch.withMode (.single branch.mode)

def Path.toBranch? (path : Path) : Option Branch :=
  match path.mode with
  | .single single => some (path.withMode single)
  | .union .. => none

theorem Path.toBranch?_eq_some_iff {path : Path} {branch : Branch} :
    path.toBranch? = some branch ↔ path = branch.toPath := by
  obtain ⟨mode, _⟩ := path
  obtain ⟨single, _⟩ := branch
  cases mode <;> simp [toBranch?, Branch.toPath, Access.withMode]

/-! ## Text -/

def Single.label : Single → String
  | .table _ => "table"
  | .index i => "index " ++ i.name

def Mode.label : Mode → String
  | .single s => s.label
  | .union branches _ => "index_merge[" ++ toString branches.length ++ "]"

def Access.label {Mode : Type} (modeLabel : Mode → String) (access : Access Mode) : String :=
  modeLabel access.mode ++ if access.forced then " forced" else ""

def Branch.render (branch : Branch) : String := branch.label Single.label

def Path.render (path : Path) : String := path.label Mode.label

/-! ## Equality -/

def Single.equal : Single → Single → Bool
  | .table a, .table b => a == b
  | .index a, .index b => a.equal b
  | _, _ => false

namespace Access

/-- Equality of all fields; numbers in conditions, filters and estimates compare as numbers. -/
def equal {Mode : Type} (equalMode : Mode → Mode → Bool) (left right : Access Mode) : Bool :=
  equalMode left.mode right.mode && left.stage == right.stage &&
    Expr.allEqual left.conditions right.conditions &&
    left.equalityCount == right.equalityCount && left.prefixCount == right.prefixCount &&
    Expr.allEqual left.indexFilters right.indexFilters &&
    Expr.allEqual left.tableFilters right.tableFilters &&
    (match left.estimates, right.estimates with
      | none, none => true
      | some a, some b => a.equal b
      | _, _ => false) &&
    left.storage == right.storage && left.remote == right.remote && left.forced == right.forced

end Access

def Branch.equal (left right : Branch) : Bool := Access.equal Single.equal left right

def Mode.equal : Mode → Mode → Bool
  | .single a, .single b => a.equal b
  | .union as d, .union bs e =>
    as.length == bs.length && (as.zip bs).all (fun (a, b) ↦ a.equal b) && d == e
  | _, _ => false

def Path.equal (left right : Path) : Bool := Access.equal Mode.equal left right

end IndexAccess
