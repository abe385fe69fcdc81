import IndexAccess.PathError

/-!
# What an operation reports

An operation writes log events, which are meant for readers, and tally events, which are meant for
counters.  Both are values; an operation returns them in the order in which they happened.
-/

namespace IndexAccess

inductive LogLevel where
  | trace
  | debug
  | warn
  deriving DecidableEq

def LogLevel.label : LogLevel → String
  | .trace => "trace"
  | .debug => "debug"
  | .warn => "warn"

/-- A key column is named by its position in the index, a path by its text. -/
inductive LogEvent where
  | noSeek (slot : Nat) (column : String)
  | columnBound (slot : Nat) (column : String) (filter : Expr)
  | seekExtended (prefixCount bound consumed partialMatches residual : Nat)
  | stageChanged (path : String) (source target : Stage)
  | pathSelected (position discarded : Nat) (winner : String)
  | estimatesRejected (path : String) (error : PathError)

namespace LogEvent

def level : LogEvent → LogLevel
  | .noSeek .. | .columnBound .. => .trace
  | .seekExtended .. | .stageChanged .. | .pathSelected .. => .debug
  | .estimatesRejected .. => .warn

def message : LogEvent → String
  | .noSeek .. => "no seekable equality; stopping"
  | .columnBound .. => "bound index column"
  | .seekExtended .. => "split correlated access conditions"
  | .stageChanged .. => "access path stage"
  | .pathSelected .. => "selected access path"
  | .estimatesRejected .. => "rejected selectivity counters"

def fields : LogEvent → List (String × String)
  | .noSeek slot column => [("slot", toString slot), ("column", column)]
  | .columnBound slot column filter =>
    [("slot", toString slot), ("column", column), ("filter", filter.render)]
  | .seekExtended prefixCount bound consumed partialMatches residual =>
    [("eq_or_in_count", toString prefixCount), ("bound", toString bound),
      ("consumed", toString consumed), ("prefix_matches", toString partialMatches),
      ("remained", toString residual)]
  | .stageChanged path source target =>
    [("path", path), ("from", source.label), ("to", target.label)]
  | .pathSelected position discarded winner =>
    [("position", toString position), ("discarded", toString discarded), ("winner", winner)]
  | .estimatesRejected path error => [("path", path), ("error", error.message)]

end LogEvent

inductive TallyEvent where
  | extension (bound consumed partialMatches rejected : Nat)
  | union (branches : Nat)
  | selection (discarded : Nat)
  deriving DecidableEq

/-- The result of an operation on a state.  The state reached is there also when the operation is
refused, so that what a refusal leaves behind can be seen. -/
structure Outcome (σ α : Type) where
  result : Except PathError α
  state : σ
  log : List LogEvent
  tally : List TallyEvent

namespace Outcome

variable {σ τ α β : Type}

def done (state : σ) (value : α) : Outcome σ α := ⟨.ok value, state, [], []⟩

def refused (state : σ) (error : PathError) : Outcome σ α := ⟨.error error, state, [], []⟩

/-- The same outcome seen in a larger state. -/
def embed (f : σ → τ) (outcome : Outcome σ α) : Outcome τ α :=
  ⟨outcome.result, f outcome.state, outcome.log, outcome.tally⟩

/-- Goes on from the state reached, unless the first operation was refused. -/
def andThen (first : Outcome σ α) (next : σ → α → Outcome σ β) : Outcome σ β :=
  match first.result with
  | .error error => ⟨.error error, first.state, first.log, first.tally⟩
  | .ok value =>
    let second := next first.state value
    ⟨second.result, second.state, first.log ++ second.log, first.tally ++ second.tally⟩

/-- Runs an operation on one element after the other; elements after a refusal stay as they are. -/
def forEach (step : σ → Outcome σ α) : List σ → Outcome (List σ) (List α)
  | [] => done [] []
  | x :: xs =>
    let head := step x
    match head.result with
    | .error error => ⟨.error error, head.state :: xs, head.log, head.tally⟩
    | .ok value =>
      let tail := forEach step xs
      ⟨tail.result.map (value :: ·), head.state :: tail.state, head.log ++ tail.log,
        head.tally ++ tail.tally⟩

end Outcome

end IndexAccess
