import IndexAccess.Path.Operations

/-!
# Candidate paths

All paths found for one table.  Exactly one of them is selected; the others are discarded with the
branches they have.  When a hint forces some of the candidates, only those can be selected.
-/

namespace IndexAccess

structure Candidates where
  members : List Path
  /-- The position of the path that was selected. -/
  choice : Option Nat

namespace Candidates

def empty : Candidates := ⟨[], none⟩

/-- Adds a path at the end and tells its position. -/
def push (candidates : Candidates) (path : Path) : Candidates × Nat :=
  ({ candidates with members := candidates.members ++ [path] }, candidates.members.length)

def anyForced (candidates : Candidates) : Bool :=
  candidates.members.any fun path ↦ path.forced

/-- The candidates that may be ranked by cost, with their positions. -/
def rankable (candidates : Candidates) : List (Nat × Path) :=
  (candidates.members.zipIdx.filter fun (path, _) ↦
    path.isRankable && (!candidates.anyForced || path.forced)).map Prod.swap

def selected? (candidates : Candidates) : Option Path :=
  candidates.choice.bind fun position ↦ candidates.members[position]?

/-- Takes a member out; the last one moves to its place. -/
def swapRemove? (members : List Path) (position : Nat) : Option (Path × List Path) :=
  members[position]?.map fun path ↦
    (path, (members.set position (members.getLastD path)).dropLast)

/-- Gives the set up and keeps the path that was selected. -/
def intoSelected? (candidates : Candidates) : Option Path :=
  (candidates.choice.bind fun position ↦ swapRemove? candidates.members position).map Prod.fst

/-- Estimates that were recorded without a look at their growth are looked at again. -/
def recheck (path : Path) : Except PathError Unit :=
  match path.estimates with
  | none => .ok ()
  | some estimates => estimates.check true

/-- Discards every member that has not ended and tells how many there were. -/
def discardLive (members : List Path) : Outcome (List Path) Nat :=
  (Outcome.forEach Path.discardIfLive members).andThen fun members ended ↦
    .done members (ended.count true)

/-- Selects one member and discards the others.  The member selected has ended by then, so it is
not among those discarded. -/
def select (candidates : Candidates) (position : Nat) : Outcome Candidates Path :=
  if candidates.choice.isSome then .refused candidates .alreadySelected
  else
    match candidates.members[position]? with
    | none =>
      .refused candidates (.noSuchCandidate position candidates.members.length)
    | some path =>
      if !path.forced && candidates.anyForced then
        .refused candidates (.unforcedCandidate position)
      else
        match recheck path with
        | .error error => .refused candidates error
        | .ok () =>
          let won := path.finish .selected
          (won.embed fun winner ↦
            { candidates with members := candidates.members.set position winner }).andThen
            fun candidates _ ↦
              ((discardLive candidates.members).embed fun members ↦
                { candidates with members }).andThen fun candidates discarded ↦
                  ⟨.ok won.state, { candidates with choice := some position },
                    [.pathSelected position discarded won.state.render], [.selection discarded]⟩

end Candidates

end IndexAccess
