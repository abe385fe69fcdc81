import IndexAccess.Proofs.Candidates.Selection

/-!
# Refusals change nothing

An operation that is refused leaves the path as it was, or all candidates with their branches and
the choice made so far.  It counts nothing and logs nothing; only estimates that fail their own
check are reported, by one warning.  Some operations look at the stage twice, or change one member
after the other: nothing is refused after the first change, since a stage that can be entered is
entered, and no path that has not ended refuses to be discarded.
-/

namespace IndexAccess

namespace Outcome

variable {σ α : Type} {before : σ} {warnings : List LogEvent}

/-- A refusal leaves the state `before`, counts nothing and logs `warnings`. -/
def Harmless (before : σ) (warnings : List LogEvent) (outcome : Outcome σ α) : Prop :=
  ∀ error, outcome.result = .error error → outcome = ⟨.error error, before, warnings, []⟩

theorem harmless_error (error : PathError) :
    (⟨.error error, before, warnings, []⟩ : Outcome σ α).Harmless before warnings := by
  intro other hother
  rw [Except.error.inj hother]

theorem harmless_of_ok {outcome : Outcome σ α} {value : α} (h : outcome.result = .ok value) :
    outcome.Harmless before warnings := by
  intro error herror
  rw [h] at herror
  cases herror

/-- An operation that succeeds or is plainly refused is harmless, with nothing logged. -/
theorem harmless_of_refused_or_ok {outcome : Outcome σ α}
    (h : (∃ error, outcome = .refused before error) ∨ ∃ value, outcome.result = .ok value) :
    outcome.Harmless before [] := by
  rcases h with ⟨error, rfl⟩ | ⟨value, hvalue⟩
  · exact harmless_error error
  · exact harmless_of_ok hvalue

end Outcome

namespace Path

/-! ## Paths -/

theorem harmless_bindPrefix (path : Path) (equalities prefixCount : Nat)
    (conditions : List Expr) :
    (path.bindPrefix equalities prefixCount conditions).Harmless path [] := by
  apply Outcome.harmless_of_refused_or_ok
  refine (path.bindPrefix_cases equalities prefixCount conditions).imp_right ?_
  rintro ⟨_, -, -, -, -, -, hbound⟩
  exact ⟨(), by rw [hbound]⟩

theorem harmless_extendSeek (path : Path) (compatible : Compatibility) :
    (path.extendSeek compatible).Harmless path [] := by
  apply Outcome.harmless_of_refused_or_ok
  refine (path.extendSeek_cases compatible).imp_right ?_
  rintro (⟨_, -, -, -, hskipped⟩ | ⟨_, -, -, -, -, hextended⟩)
  · exact ⟨0, by rw [hskipped]⟩
  · exact ⟨_, by rw [hextended]⟩

theorem harmless_separateFilters (path : Path) : path.separateFilters.Harmless path [] := by
  apply Outcome.harmless_of_refused_or_ok
  refine path.separateFilters_cases.imp_right ?_
  rintro ⟨_, -, -, hseparated⟩
  exact ⟨(), by rw [hseparated]; rfl⟩

/-- The warning about estimates that fail their check; the stage is not looked at. -/
def estimateWarnings (path : Path) (estimates : RowEstimates) (settings : Settings) :
    List LogEvent :=
  match estimates.check settings.refuseGrowth with
  | .error error => [.estimatesRejected path.render error]
  | .ok () => []

theorem harmless_setEstimates (path : Path) (estimates : RowEstimates) (settings : Settings) :
    (path.setEstimates estimates settings).Harmless path
      (path.estimateWarnings estimates settings) := by
  unfold estimateWarnings setEstimates
  cases hcheck : estimates.check settings.refuseGrowth with
  | error error => exact Outcome.harmless_error error
  | ok =>
    cases hmove : path.stage.canMove .rangesBuilt with
    | false =>
      rw [moveTo_of_not_canMove hmove]
      exact Outcome.harmless_error _
    | true =>
      rw [moveTo_of_canMove hmove]
      exact Outcome.harmless_of_ok rfl

theorem harmless_union (settings : Settings) (partials : List Path) (disjunctive : Bool)
    (filters : List Expr) : (union settings partials disjunctive filters).Harmless () [] := by
  apply Outcome.harmless_of_refused_or_ok
  refine (union_cases settings partials disjunctive filters).imp_right ?_
  rintro ⟨_, -, -, -, hunited⟩
  exact ⟨_, by rw [hunited]⟩

end Path

/-! ## Candidates -/

namespace Candidates

theorem harmless_select (candidates : Candidates) (position : Nat) :
    (candidates.select position).Harmless candidates [] := by
  apply Outcome.harmless_of_refused_or_ok
  refine (candidates.select_cases position).imp_right ?_
  rintro ⟨_, -, hresult, -⟩
  exact ⟨_, hresult⟩

end Candidates

/-- No operation leaves a trace when it is refused, but for the warning about estimates that fail
their check.  What a selection does after the winner has moved, discarding the members that have
not ended and the branches of a union, succeeds for all members and branches there can be. -/
theorem refusals_harmless :
    (∀ (path : Path) (equalities prefixCount : Nat) (conditions : List Expr),
      (path.bindPrefix equalities prefixCount conditions).Harmless path []) ∧
    (∀ (path : Path) (compatible : Compatibility),
      (path.extendSeek compatible).Harmless path []) ∧
    (∀ path : Path, path.separateFilters.Harmless path []) ∧
    (∀ (path : Path) (estimates : RowEstimates) (settings : Settings),
      (path.setEstimates estimates settings).Harmless path
        (path.estimateWarnings estimates settings)) ∧
    (∀ (settings : Settings) (partials : List Path) (disjunctive : Bool) (filters : List Expr),
      (Path.union settings partials disjunctive filters).Harmless () []) ∧
    (∀ (candidates : Candidates) (position : Nat),
      (candidates.select position).Harmless candidates []) ∧
    (∀ members : List Path,
      ∃ discarded, (Candidates.discardLive members).result = .ok discarded) ∧
    ∀ branches : List Branch,
      ∃ ended, (Outcome.forEach Branch.discardIfLive branches).result = .ok ended := by
  refine ⟨Path.harmless_bindPrefix, Path.harmless_extendSeek, Path.harmless_separateFilters,
    Path.harmless_setEstimates, Path.harmless_union, Candidates.harmless_select, ?_, ?_⟩
  · intro members
    rw [Candidates.discardLive_eq]
    exact ⟨_, rfl⟩
  · intro branches
    rw [Outcome.forEach_eq Branch.discardIfLive_eq]
    exact ⟨_, rfl⟩

end IndexAccess
