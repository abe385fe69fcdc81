import IndexAccess.Path.Basic
import IndexAccess.Seek.Extension

/-!
# Operations on access paths

Each operation checks first and changes the path last, so that a refused one leaves it as it was.
The stage decides which operations are still open: an equality prefix, a seek extension and row
estimates can each be recorded once and in this order, and the filters can be separated between
the prefix and the estimates.
-/

namespace IndexAccess

/-- Whether the filter can be checked on an entry of the index alone. -/
def Index.answers (index : Index) (filter : Expr) : Bool :=
  filter.columns.all fun column ↦ index.covers column.id

namespace Access

variable {Mode : Type}

def moveTo (modeLabel : Mode → String) (access : Access Mode) (next : Stage) :
    Outcome (Access Mode) Unit :=
  match access.stage.moveTo next with
  | .error error => .refused access error
  | .ok stage =>
    let moved := { access with stage }
    ⟨.ok (), moved, [.stageChanged (moved.label modeLabel) access.stage stage], []⟩

/-- Ends a path that has not ended yet; tells whether there was something to do. -/
def discardIfLive (discard : Access Mode → Outcome (Access Mode) Unit) (access : Access Mode) :
    Outcome (Access Mode) Bool :=
  if access.stage.isFinal then .done access false
  else (discard access).andThen fun access _ ↦ .done access true

end Access

def Branch.moveTo (branch : Branch) (next : Stage) : Outcome Branch Unit :=
  Access.moveTo Single.label branch next

def Branch.discardIfLive (branch : Branch) : Outcome Branch Bool :=
  Access.discardIfLive (fun branch ↦ Branch.moveTo branch .discarded) branch

namespace Path

def moveTo (path : Path) (next : Stage) : Outcome Path Unit :=
  Access.moveTo Mode.label path next

/-! ## Hints -/

def withStorage (path : Path) (storage : Storage) : Path := { path with storage }

def withForced (path : Path) (forced : Bool) : Path := { path with forced }

def withRemote (path : Path) (remote : Bool) : Path := { path with remote }

/-! ## Working stages -/

/-- Records the conditions found for a prefix of the index.  They may go past the equality prefix
but not past the index. -/
def bindPrefix (path : Path) (equalities prefixCount : Nat) (conditions : List Expr) :
    Outcome Path Unit :=
  match path.index? with
  | none => .refused path (.noSingleIndex .equalityExtraction)
  | some index =>
    let keys := index.keys.length
    if keys < prefixCount then .refused path (.prefixOutOfRange prefixCount keys)
    else if prefixCount < equalities then
      .refused path (.equalitiesExceedPrefix equalities prefixCount)
    else if conditions.length < prefixCount ∨ keys < conditions.length then
      .refused path (.conditionsOffPrefix conditions.length prefixCount)
    else
      (path.moveTo .equalityExtracted).andThen fun path _ ↦
        .done { path with conditions, prefixCount, equalityCount := equalities } ()

/-- Binds further key columns by filters that allow a seek and tells their number.  Nothing is
bound when a range condition already stands after the equality prefix. -/
def extendSeek (path : Path) (compatible : Compatibility) : Outcome Path Nat :=
  match path.index? with
  | none => .refused path (.noSingleIndex .correlatedSplit)
  | some index =>
    let keys := index.keys.length
    if keys < path.prefixCount then
      .refused path (.prefixOutOfRange path.prefixCount keys)
    else
      match path.stage.moveTo .correlatedSplit with
      | .error error => .refused path error
      | .ok _ =>
        if path.conditions.length ≠ path.prefixCount then
          (path.moveTo .correlatedSplit).andThen fun path _ ↦ .done path 0
        else
          let report :=
            Seek.reportedExtension compatible index.keys path.tableFilters path.prefixCount
          (report.embed fun _ ↦ path).andThen fun path extension ↦
            let extended : Path :=
              { path with
                conditions := path.conditions ++ extension.access
                tableFilters := extension.residual }
            (extended.moveTo .correlatedSplit).andThen fun path _ ↦
              .done path extension.access.length

/-- Moves the filters that the index answers out of the table filters. -/
def separateFilters (path : Path) : Outcome Path Unit :=
  match path.index? with
  | none => .refused path (.noSingleIndex .filterSeparation)
  | some index =>
    if path.stage = .equalityExtracted ∨ path.stage = .correlatedSplit then
      let (answered, others) := path.tableFilters.partition index.answers
      let separated : Path :=
        { path with indexFilters := path.indexFilters ++ answered, tableFilters := others }
      .done separated ()
    else .refused path (.illegalMove path.stage .correlatedSplit)

def setEstimates (path : Path) (estimates : RowEstimates) (settings : Settings) :
    Outcome Path Unit :=
  match estimates.check settings.refuseGrowth with
  | .error error => ⟨.error error, path, [.estimatesRejected path.render error], []⟩
  | .ok () =>
    (path.moveTo .rangesBuilt).andThen fun path _ ↦
      .done { path with estimates := some estimates } ()

/-! ## Unions -/

/-- The union of paths that are no unions.  A filter of the union must not stand among the table
filters of a branch as well. -/
def union (settings : Settings) (partials : List Path) (disjunctive : Bool)
    (filters : List Expr) : Outcome Unit Path :=
  if !settings.unions then .refused () .unionsDisabled
  else if partials.isEmpty then .refused () .emptyUnion
  else if partials.any isUnion then .refused () .nestedUnion
  else
    let stands (filter : Expr) : Bool :=
      partials.any fun path ↦ path.tableFilters.any fun other ↦ other.equal filter
    match filters.find? stands with
    | some filter => .refused () (.duplicatedFilter filter)
    | none =>
      let branches := partials.filterMap toBranch?
      ⟨.ok (.create (.union branches disjunctive) filters), (), [], [.union partials.length]⟩

/-! ## Ends -/

/-- Moves to an end.  Discarding a union discards its branches that have not ended. -/
def finish (path : Path) (stage : Stage) : Outcome Path Unit :=
  (path.moveTo stage).andThen fun path _ ↦
    match stage, path.mode with
    | .discarded, .union branches disjunctive =>
      ((Outcome.forEach Branch.discardIfLive branches).embed fun branches ↦
        path.withMode (.union branches disjunctive)).andThen fun path _ ↦ .done path ()
    | _, _ => .done path ()

def discardIfLive (path : Path) : Outcome Path Bool :=
  Access.discardIfLive (fun path ↦ Path.finish path .discarded) path

end Path

end IndexAccess
