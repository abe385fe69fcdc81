import IndexAccess.Journal

/-!
# Counters and recorders

Tally events go to the recorder of the innermost scope in force or, outside every scope, to the
counters.  Entering a scope puts its recorder in force; leaving it puts back what was in force
before.  Resetting clears the counters and touches neither recorders nor scopes.  A counter that
has reached its limit stays there.
-/

namespace IndexAccess

structure Counters where
  extensions : Nat
  columnsBound : Nat
  filtersConsumed : Nat
  partialMatches : Nat
  rejections : Nat
  selections : Nat
  discards : Nat
  unions : Nat
  deriving DecidableEq

namespace Counters

def zero : Counters := ⟨0, 0, 0, 0, 0, 0, 0, 0⟩

/-- The largest value of a counter. -/
def limit : Nat := 0xFFFFFFFFFFFFFFFF

def raise (count amount : Nat) : Nat := min (count + amount) limit

def add (counters : Counters) : TallyEvent → Counters
  | .extension bound consumed partialMatches rejected =>
    { counters with
      extensions := raise counters.extensions 1
      columnsBound := raise counters.columnsBound bound
      filtersConsumed := raise counters.filtersConsumed consumed
      partialMatches := raise counters.partialMatches partialMatches
      rejections := raise counters.rejections rejected }
  | .union _ => { counters with unions := raise counters.unions 1 }
  | .selection discarded =>
    { counters with
      selections := raise counters.selections 1
      discards := raise counters.discards discarded }

/-- The values under the names by which they are reported. -/
def toList (counters : Counters) : List (String × Nat) :=
  [("splits", counters.extensions), ("columns_bound", counters.columnsBound),
    ("filters_consumed", counters.filtersConsumed), ("prefix_matches", counters.partialMatches),
    ("collation_rejections", counters.rejections), ("paths_selected", counters.selections),
    ("paths_discarded", counters.discards), ("index_merges", counters.unions)]

end Counters

/-- The counters, what each recorder has received, and the recorder in force.  A recorder is named
by its position. -/
structure Meter where
  counters : Counters
  received : List (List TallyEvent)
  inForce : Option Nat

namespace Meter

def fresh : Meter := ⟨.zero, [], none⟩

def record (meter : Meter) (event : TallyEvent) : Meter :=
  match meter.inForce with
  | none => { meter with counters := meter.counters.add event }
  | some recorder => { meter with received := meter.received.modify recorder (· ++ [event]) }

def recordAll (meter : Meter) (events : List TallyEvent) : Meter :=
  events.foldl record meter

def reset (meter : Meter) : Meter :=
  { meter with counters := .zero }

/-- A recorder that has received nothing. -/
def addRecorder (meter : Meter) : Meter × Nat :=
  ({ meter with received := meter.received ++ [[]] }, meter.received.length)

def enter (meter : Meter) (recorder : Nat) : Meter :=
  { meter with inForce := some recorder }

/-- Ends a scope; `before` is what was in force when it was entered. -/
def leave (meter : Meter) (before : Option Nat) : Meter :=
  { meter with inForce := before }

def receivedBy (meter : Meter) (recorder : Nat) : List TallyEvent :=
  meter.received.getD recorder []

/-- What happens to a meter in a program with scopes. -/
inductive Activity where
  | event (event : TallyEvent)
  | reset
  | scope (recorder : Nat) (body : List Activity)

mutual

def perform (meter : Meter) : Activity → Meter
  | .event event => meter.record event
  | .reset => meter.reset
  | .scope recorder body => (performAll (meter.enter recorder) body).leave meter.inForce

def performAll (meter : Meter) : List Activity → Meter
  | [] => meter
  | activity :: rest => performAll (perform meter activity) rest

end

end Meter

end IndexAccess
