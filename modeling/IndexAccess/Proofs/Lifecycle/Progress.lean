import IndexAccess.Proofs.Lifecycle.Runs

/-!
# A path only moves forward

Three operations bring a path from one working stage to a later one.  Whatever run a path lives
through, each of them succeeds at most once, and those that succeed do so in one order, because a
success raises the stage to the one that the operation leads to and nothing lowers it again.
Filters are separated between two stages and leave the stage alone; a path is selected only where
its ranges are built.  Once it has been selected or discarded, every operation is refused and
leaves the path with its branches as it is.
-/

namespace IndexAccess

/-- What a path can achieve in its working stages. -/
inductive Milestone where
  | prefixBound
  | seekExtended
  | estimatesSet
  deriving DecidableEq

namespace Milestone

def stage : Milestone → Stage
  | .prefixBound => .equalityExtracted
  | .seekExtended => .correlatedSplit
  | .estimatesSet => .rangesBuilt

def all : List Milestone := [.prefixBound, .seekExtended, .estimatesSet]

/-- The milestones beyond a stage. -/
def beyond (stage : Stage) : List Milestone :=
  all.filter fun milestone ↦ stage.rank < milestone.stage.rank

theorem beyond_sublist_all (stage : Stage) : (beyond stage).Sublist all := List.filter_sublist

theorem beyond_sublist_beyond {stage next : Stage} (h : stage.rank ≤ next.rank) :
    (beyond next).Sublist (beyond stage) := by
  apply List.monotone_filter_right
  intro milestone hlt
  simp only [decide_eq_true_eq] at hlt ⊢
  omega

theorem cons_beyond_sublist_beyond {stage : Stage} {milestone : Milestone}
    (h : stage.rank < milestone.stage.rank) :
    (milestone :: beyond milestone.stage).Sublist (beyond stage) := by
  revert h
  cases stage <;> cases milestone <;> decide

end Milestone

/-- Hints may be given at any time. -/
def Action.isHint : Action → Bool
  | .store _ | .force _ | .readRemotely _ => true
  | .bindPrefix .. | .extendSeek _ | .separateFilters | .setEstimates .. | .compete .. => false

theorem Stage.canMove_of_isFinal {stage : Stage} (h : stage.isFinal = true) (next : Stage) :
    stage.canMove next = false := by
  unfold canMove
  rw [h]
  rfl

namespace Path

variable {path later : Path}

/-! ## Milestones of a run -/

/-- The milestone that an action reaches, if it succeeds. -/
def milestone? (path : Path) : Action → Option Milestone
  | .bindPrefix equalities prefixCount conditions =>
    if (path.bindPrefix equalities prefixCount conditions).result.isOk then some .prefixBound
    else none
  | .extendSeek compatible =>
    if (path.extendSeek compatible).result.isOk then some .seekExtended else none
  | .setEstimates estimates settings =>
    if (path.setEstimates estimates settings).result.isOk then some .estimatesSet else none
  | .store _ | .force _ | .readRemotely _ | .separateFilters | .compete .. => none

/-- The milestones that a run reaches, in their order. -/
def milestones (path : Path) : List Action → List Milestone
  | [] => []
  | action :: actions => (path.milestone? action).toList ++ (path.after action).milestones actions

/-- A milestone lies beyond the stage from which it is reached, and the path is in its stage
then. -/
theorem stage_of_milestone? {action : Action} {milestone : Milestone}
    (h : path.milestone? action = some milestone) :
    path.stage.rank < milestone.stage.rank ∧ (path.after action).stage = milestone.stage := by
  cases action with
  | bindPrefix equalities prefixCount conditions =>
    simp only [milestone?, after] at h ⊢
    obtain ⟨error, hrefused⟩ | ⟨_, -, hstage, -, -, -, hbound⟩ :=
      path.bindPrefix_cases equalities prefixCount conditions
    · rw [hrefused] at h
      cases h
    · rw [hbound] at h ⊢
      obtain rfl : .prefixBound = milestone := Option.some.inj h
      rw [hstage]
      exact ⟨Nat.zero_lt_one, rfl⟩
  | extendSeek compatible =>
    simp only [milestone?, after] at h ⊢
    obtain ⟨error, hrefused⟩ | ⟨_, -, hmove, -, hskipped⟩ | ⟨_, -, hmove, -, -, hextended⟩ :=
      path.extendSeek_cases compatible
    · rw [hrefused] at h
      cases h
    · rw [hskipped] at h ⊢
      obtain rfl : .seekExtended = milestone := Option.some.inj h
      exact ⟨Stage.rank_lt_of_canMove hmove, rfl⟩
    · rw [hextended] at h ⊢
      obtain rfl : .seekExtended = milestone := Option.some.inj h
      exact ⟨Stage.rank_lt_of_canMove hmove, rfl⟩
  | setEstimates estimates settings =>
    simp only [milestone?, after] at h ⊢
    obtain ⟨error, -, hrejected⟩ | ⟨error, hrefused⟩ | ⟨-, hmove, hestimated⟩ :=
      path.setEstimates_cases estimates settings
    · rw [hrejected] at h
      cases h
    · rw [hrefused] at h
      cases h
    · rw [hestimated] at h ⊢
      obtain rfl : .estimatesSet = milestone := Option.some.inj h
      exact ⟨Stage.rank_lt_of_canMove hmove, rfl⟩
  | store | force | readRemotely | separateFilters | compete => cases h

theorem rank_le_ended (path : Path) : path.stage.rank ≤ path.ended.stage.rank := by
  rw [stage_ended]
  cases path.stage <;> decide

/-- No action takes a path back. -/
theorem Step.rank_le (hstep : Step path later) : path.stage.rank ≤ later.stage.rank := by
  cases hstep with
  | stay | hinted | separated => exact Nat.le_refl _
  | bound _ hstage =>
    rw [hstage]
    exact Nat.zero_le _
  | skipped _ hmove | extended _ hmove | estimated _ hmove =>
    exact Nat.le_of_lt (Stage.rank_lt_of_canMove hmove)
  | won hstage =>
    rw [hstage]
    exact Nat.le_succ _
  | ended => exact path.rank_le_ended

theorem milestones_sublist_beyond (path : Path) (actions : List Action) :
    (path.milestones actions).Sublist (Milestone.beyond path.stage) := by
  induction actions generalizing path with
  | nil => exact List.nil_sublist _
  | cons action actions ih =>
    have hrest := ih (path.after action)
    rw [milestones]
    cases hmilestone : path.milestone? action with
    | none =>
      have hle := (step_after path action).rank_le
      exact hrest.trans (Milestone.beyond_sublist_beyond hle)
    | some milestone =>
      obtain ⟨hlt, hstage⟩ := stage_of_milestone? hmilestone
      rw [hstage] at hrest
      exact (hrest.cons_cons milestone).trans (Milestone.cons_beyond_sublist_beyond hlt)

/-! ## Single moments -/

theorem Step.rangesBuilt_of_selected (hstep : Step path later) (h : later.stage = .selected) :
    path.stage = .selected ∨ path.stage = .rangesBuilt := by
  cases hstep with
  | stay | hinted | separated => exact .inl h
  | bound | skipped | extended | estimated => cases h
  | won hstage => exact .inr hstage
  | ended =>
    rw [stage_ended] at h
    split at h
    · next hselected => exact .inl hselected
    · cases h

theorem stage_of_separateFilters (h : path.separateFilters.result = .ok ()) :
    (path.stage = .equalityExtracted ∨ path.stage = .correlatedSplit) ∧
      path.separateFilters.state.stage = path.stage := by
  obtain ⟨error, hrefused⟩ | ⟨_, -, hstage, hseparated⟩ := path.separateFilters_cases
  · rw [hrefused] at h
    cases h
  · rw [hseparated]
    exact ⟨hstage, rfl⟩

theorem rangesBuilt_of_finish_selected (h : (path.finish .selected).result = .ok ()) :
    path.stage = .rangesBuilt := by
  by_contra hstage
  rw [finish_selected_of_ne hstage] at h
  cases h

/-- What the next operation can do to the stage of a path. -/
structure Forward (path : Path) : Prop where
  rank_le : ∀ action, path.stage.rank ≤ (path.after action).stage.rank
  reached : ∀ action milestone, path.milestone? action = some milestone →
    path.stage.rank < (path.after action).stage.rank ∧
      (path.after action).stage = milestone.stage
  separated : path.separateFilters.result = .ok () →
    (path.stage = .equalityExtracted ∨ path.stage = .correlatedSplit) ∧
      path.separateFilters.state.stage = path.stage
  won : ∀ action, (path.after action).stage = .selected →
    path.stage = .selected ∨ path.stage = .rangesBuilt
  chosen : (path.finish .selected).result = .ok () → path.stage = .rangesBuilt

theorem forward (path : Path) : path.Forward where
  rank_le := fun action ↦ (step_after path action).rank_le
  reached := by
    intro action milestone hmilestone
    obtain ⟨hlt, hstage⟩ := stage_of_milestone? hmilestone
    rw [hstage]
    exact ⟨hlt, rfl⟩
  separated := stage_of_separateFilters
  won := fun action ↦ (step_after path action).rangesBuilt_of_selected
  chosen := rangesBuilt_of_finish_selected

/-! ## Ended paths -/

/-- Every operation is refused and leaves the path as it is, its branches included.  It cannot be
selected among any candidates, and it is passed over where another one is. -/
structure Closed (path : Path) : Prop where
  bindPrefix : ∀ equalities prefixCount conditions, ∃ error,
    path.bindPrefix equalities prefixCount conditions = .refused path error
  extendSeek : ∀ compatible, ∃ error, path.extendSeek compatible = .refused path error
  separateFilters : ∃ error, path.separateFilters = .refused path error
  setEstimates : ∀ estimates settings, ∃ error,
    (path.setEstimates estimates settings).result = .error error ∧
      (path.setEstimates estimates settings).state = path
  finish : ∀ stage, ∃ error, path.finish stage = .refused path error
  unchosen : ∀ before rest choice,
    let candidates : Candidates := ⟨before ++ path :: rest, choice⟩
    ∃ error, candidates.select before.length = .refused candidates error
  passed : ∀ before rest choice position,
    path.after (.compete before rest choice position) = path

theorem select_of_isFinal (h : path.stage.isFinal = true) (before rest : List Path)
    (choice : Option Nat) :
    let candidates : Candidates := ⟨before ++ path :: rest, choice⟩
    ∃ error, candidates.select before.length = .refused candidates error := by
  intro candidates
  refine (candidates.select_refused_or_selectable before.length).resolve_right ?_
  rintro ⟨member, hmember⟩
  have hseat : candidates.members[before.length]? = some path := by
    simp [candidates]
  obtain rfl : path = member := Option.some.inj (hseat.symm.trans hmember.member)
  rw [hmember.built] at h
  cases h

theorem after_compete_of_isFinal (h : path.stage.isFinal = true) (before rest : List Path)
    (choice : Option Nat) (position : Nat) :
    path.after (.compete before rest choice position) = path := by
  obtain hsame | ⟨hstage, -, -⟩ | hended := path.after_compete_cases before rest choice position
  · exact hsame
  · rw [hstage] at h
    cases h
  · rw [hended]
    exact if_pos h

theorem closed_of_isFinal (h : path.stage.isFinal = true) : path.Closed where
  bindPrefix := by
    intro equalities prefixCount conditions
    refine (path.bindPrefix_cases equalities prefixCount conditions).resolve_right ?_
    rintro ⟨_, -, hstage, -⟩
    rw [hstage] at h
    cases h
  extendSeek := by
    intro compatible
    refine (path.extendSeek_cases compatible).resolve_right ?_
    rintro (⟨_, -, hmove, -⟩ | ⟨_, -, hmove, -⟩)
    · exact Bool.false_ne_true ((Stage.isFinal_eq_false_of_canMove hmove).symm.trans h)
    · exact Bool.false_ne_true ((Stage.isFinal_eq_false_of_canMove hmove).symm.trans h)
  separateFilters := by
    refine path.separateFilters_cases.resolve_right ?_
    rintro ⟨_, -, hstage | hstage, -⟩
    · rw [hstage] at h
      cases h
    · rw [hstage] at h
      cases h
  setEstimates := by
    intro estimates settings
    obtain ⟨error, -, hrejected⟩ | ⟨error, hrefused⟩ | ⟨-, hmove, -⟩ :=
      path.setEstimates_cases estimates settings
    · exact ⟨error, by rw [hrejected], by rw [hrejected]⟩
    · exact ⟨error, by rw [hrefused]; rfl, by rw [hrefused]; rfl⟩
    · have hlive := Stage.isFinal_eq_false_of_canMove hmove
      exact absurd (hlive.symm.trans h) Bool.false_ne_true
  finish := by
    intro stage
    unfold Path.finish
    rw [moveTo_of_not_canMove (Stage.canMove_of_isFinal h stage)]
    exact ⟨_, rfl⟩
  unchosen := select_of_isFinal h
  passed := after_compete_of_isFinal h

theorem Closed.after (h : path.Closed) {action : Action} (hhint : action.isHint = false) :
    path.after action = path := by
  cases action with
  | bindPrefix equalities prefixCount conditions =>
    obtain ⟨error, hrefused⟩ := h.bindPrefix equalities prefixCount conditions
    exact congrArg Outcome.state hrefused
  | extendSeek compatible =>
    obtain ⟨error, hrefused⟩ := h.extendSeek compatible
    exact congrArg Outcome.state hrefused
  | separateFilters =>
    obtain ⟨error, hrefused⟩ := h.separateFilters
    exact congrArg Outcome.state hrefused
  | setEstimates estimates settings =>
    obtain ⟨error, -, hsame⟩ := h.setEstimates estimates settings
    exact hsame
  | compete before rest choice position => exact h.passed before rest choice position
  | store | force | readRemotely => cases hhint

/-- A hint leaves the stage alone, and so does everything else once the path has ended. -/
theorem isFinal_after (h : path.stage.isFinal = true) (action : Action) :
    (path.after action).stage.isFinal = true := by
  cases hhint : action.isHint with
  | true =>
    cases action with
    | store | force | readRemotely => exact h
    | bindPrefix | extendSeek | separateFilters | setEstimates | compete => cases hhint
  | false =>
    rw [(closed_of_isFinal h).after hhint]
    exact h

theorem isFinal_afterAll (h : path.stage.isFinal = true) (actions : List Action) :
    (path.afterAll actions).stage.isFinal = true := by
  unfold afterAll
  induction actions generalizing path with
  | nil => exact h
  | cons action actions ih => exact ih (isFinal_after h action)

theorem Closed.afterAll (h : path.Closed) {actions : List Action}
    (hhints : ∀ action ∈ actions, action.isHint = false) : path.afterAll actions = path := by
  unfold Path.afterAll
  induction actions with
  | nil => rfl
  | cons action actions ih =>
    obtain ⟨hhint, hrest⟩ := List.forall_mem_cons.mp hhints
    rw [List.foldl_cons, h.after hhint]
    exact ih hrest

/-- In every run each milestone is reached at most once, and in one order.  At every moment of it
the path can only move forward, and once it has ended nothing changes it any more but a hint. -/
theorem lifecycle_forward (start : Path) (actions : List Action) :
    let path := start.afterAll actions
    (start.milestones actions).Sublist [.prefixBound, .seekExtended, .estimatesSet] ∧
      path.Forward ∧
        (path.stage.isFinal = true → ∀ later,
          (path.afterAll later).Closed ∧
            ((∀ action ∈ later, action.isHint = false) → path.afterAll later = path)) := by
  intro path
  have hmilestones : (start.milestones actions).Sublist Milestone.all :=
    (start.milestones_sublist_beyond actions).trans (Milestone.beyond_sublist_all start.stage)
  refine ⟨hmilestones, path.forward, ?_⟩
  intro hfinal later
  exact ⟨closed_of_isFinal (isFinal_afterAll hfinal later), (closed_of_isFinal hfinal).afterAll⟩

end Path

end IndexAccess
