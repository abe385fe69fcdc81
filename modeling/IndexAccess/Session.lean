import IndexAccess.Candidates
import IndexAccess.Counters
import IndexAccess.Settings

/-!
# Planning sessions

A session holds paths and candidate sets under names and carries out commands on them in one
planning context.  Paths are values: a union, a set and a new name each hold a copy.  A command
that is refused leaves the names as they are.  The tally events of a command go to the meter of
the session, its log events come back with the reply.
-/

namespace IndexAccess

inductive Command where
  | table (path : String) (primaryKey : Option Column) (filters : List Expr)
  | index (path : String) (decl : IndexDecl) (filters : List Expr)
  | union (path : String) (partials : List String) (disjunctive : Bool) (filters : List Expr)
  | hint (path : String) (storage : Option Storage) (forced remote : Option Bool)
  | inspect (path : String)
  | bindPrefix (path : String) (equalities prefixCount : Nat) (conditions : List Expr)
  | extendSeek (path : String)
  | separateFilters (path : String)
  | setEstimates (path : String) (estimates : RowEstimates)
  | compareBound (left right : String)
  | compareEqual (left right : String)
  | newSet (set : String)
  | push (set path : String)
  | select (set : String) (position : Nat)
  | fetch (set : String) (position : Nat) (path : String)
  | takeSelected (set path : String)
  | readCounters
  | resetCounters

inductive Answer where
  | nothing
  | absent
  | count (n : Nat)
  | ordering (order : Option Ordering)
  | truth (b : Bool)
  | text (s : String)
  | counters (counters : Counters)

inductive CommandError where
  | path (error : PathError)
  | index (fault : IndexFault)
  | unknownPath (name : String)
  | unknownSet (name : String)

structure Reply where
  result : Except CommandError Answer
  log : List LogEvent

structure Session where
  context : Context
  meter : Meter
  paths : List (String × Path)
  sets : List (String × Candidates)

namespace Session

/-- A value put under a name takes the place of an earlier one. -/
def assign {α : Type} (name : String) (value : α) (entries : List (String × α)) :
    List (String × α) :=
  (name, value) :: entries.filter fun entry ↦ entry.1 != name

def start (context : Context) : Session := ⟨context, .fresh, [], []⟩

def path? (session : Session) (name : String) : Option Path := session.paths.lookup name

def set? (session : Session) (name : String) : Option Candidates := session.sets.lookup name

def setPath (session : Session) (name : String) (path : Path) : Session :=
  { session with paths := assign name path session.paths }

def setCandidates (session : Session) (name : String) (candidates : Candidates) : Session :=
  { session with sets := assign name candidates session.sets }

def dropSet (session : Session) (name : String) : Session :=
  { session with sets := session.sets.filter fun entry ↦ entry.1 != name }

def answered (session : Session) (answer : Answer) : Session × Reply :=
  (session, ⟨.ok answer, []⟩)

def failed (session : Session) (error : CommandError) : Session × Reply :=
  (session, ⟨.error error, []⟩)

/-- Takes in the outcome of an operation: the state is stored, tally events are recorded. -/
def takeIn {σ α : Type} (session : Session) (store : Session → σ → Session)
    (answer : α → Answer) (outcome : Outcome σ α) : Session × Reply :=
  let session := store session outcome.state
  ({ session with meter := session.meter.recordAll outcome.tally },
    ⟨(outcome.result.map answer).mapError .path, outcome.log⟩)

def onPath {α : Type} (session : Session) (name : String) (answer : α → Answer)
    (operation : Path → Outcome Path α) : Session × Reply :=
  match session.path? name with
  | none => session.failed (.unknownPath name)
  | some path => session.takeIn (fun session path ↦ session.setPath name path) answer
      (operation path)

/-- The paths under some names, or the first name that has none. -/
def pathsOf (session : Session) : List String → Except CommandError (List Path)
  | [] => .ok []
  | name :: names =>
    match session.path? name, session.pathsOf names with
    | none, _ => .error (.unknownPath name)
    | some _, .error error => .error error
    | some path, .ok paths => .ok (path :: paths)

def applyHint (path : Path) (storage : Option Storage) (forced remote : Option Bool) : Path :=
  let path := storage.elim path path.withStorage
  let path := forced.elim path path.withForced
  remote.elim path path.withRemote

def run (session : Session) : Command → Session × Reply
  | .table name primaryKey filters =>
    (session.setPath name (.table primaryKey filters)).answered .nothing
  | .index name decl filters =>
    match Index.ofDecl decl with
    | .error fault => session.failed (.index fault)
    | .ok index => (session.setPath name (.index index filters)).answered .nothing
  | .union name partials disjunctive filters =>
    match session.pathsOf partials with
    | .error error => session.failed error
    | .ok paths =>
      let outcome := Path.union session.context.settings paths disjunctive filters
      let (session, reply) :=
        session.takeIn (fun session _ ↦ session) (fun _ ↦ .nothing) outcome
      match outcome.result with
      | .error _ => (session, reply)
      | .ok path => (session.setPath name path, reply)
  | .hint name storage forced remote =>
    session.onPath name (fun _ ↦ .nothing) fun path ↦
      .done (applyHint path storage forced remote) ()
  | .inspect name => session.onPath name (fun _ ↦ .nothing) fun path ↦ .done path ()
  | .bindPrefix name equalities prefixCount conditions =>
    session.onPath name (fun _ ↦ .nothing) fun path ↦
      path.bindPrefix equalities prefixCount conditions
  | .extendSeek name =>
    session.onPath name .count fun path ↦ path.extendSeek session.context.compatible
  | .separateFilters name => session.onPath name (fun _ ↦ .nothing) Path.separateFilters
  | .setEstimates name estimates =>
    session.onPath name (fun _ ↦ .nothing) fun path ↦
      path.setEstimates estimates session.context.settings
  | .compareBound left right =>
    match session.path? left, session.path? right with
    | none, _ => session.failed (.unknownPath left)
    | some _, none => session.failed (.unknownPath right)
    | some a, some b => session.answered (.ordering (a.boundColumns.compare? b.boundColumns))
  | .compareEqual left right =>
    match session.path? left, session.path? right with
    | none, _ => session.failed (.unknownPath left)
    | some _, none => session.failed (.unknownPath right)
    | some a, some b => session.answered (.truth (a.equal b))
  | .newSet name => (session.setCandidates name .empty).answered .nothing
  | .push set path =>
    match session.set? set, session.path? path with
    | none, _ => session.failed (.unknownSet set)
    | some _, none => session.failed (.unknownPath path)
    | some candidates, some member =>
      let (candidates, position) := candidates.push member
      (session.setCandidates set candidates).answered (.count position)
  | .select name position =>
    match session.set? name with
    | none => session.failed (.unknownSet name)
    | some candidates =>
      session.takeIn (fun session candidates ↦ session.setCandidates name candidates)
        (fun path ↦ .text (Path.render path)) (candidates.select position)
  | .fetch set position path =>
    match session.set? set with
    | none => session.failed (.unknownSet set)
    | some candidates =>
      match candidates.members[position]? with
      | none => session.answered .absent
      | some member => (session.setPath path member).answered .nothing
  | .takeSelected set path =>
    match session.set? set with
    | none => session.failed (.unknownSet set)
    | some candidates =>
      match candidates.intoSelected? with
      | none => (session.dropSet set).answered .absent
      | some member => ((session.dropSet set).setPath path member).answered .nothing
  | .readCounters => session.answered (.counters session.meter.counters)
  | .resetCounters => { session with meter := session.meter.reset }.answered .nothing

/-! ## Scopes -/

/-- What is needed to end a scope: its recorder, and what was in force before it. -/
structure Scope where
  recorder : Nat
  before : Option Nat

def openScope (session : Session) : Session × Scope :=
  let (meter, recorder) := session.meter.addRecorder
  ({ session with meter := meter.enter recorder }, ⟨recorder, session.meter.inForce⟩)

/-- Ends a scope and tells the events that its recorder has received. -/
def closeScope (session : Session) (scope : Scope) : Session × List TallyEvent :=
  ({ session with meter := session.meter.leave scope.before },
    session.meter.receivedBy scope.recorder)

end Session

end IndexAccess
