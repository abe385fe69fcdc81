import IndexAccess.Path.Operations
import Mathlib.Data.List.Basic

/-!
# Outcomes of the operations on a path

For each operation, everything that a call can do: it is refused and the path stays as it was, or
it succeeds with a path, a value and events that are given here in full.  A path that ends as
discarded never refuses to, so a union ends with all its branches.  Later arguments about paths
start from these case distinctions and do not look into the operations again.
-/

namespace IndexAccess

namespace Outcome

variable {σ τ α β : Type}

@[simp] theorem refused_andThen (state : σ) (error : PathError) (next : σ → α → Outcome σ β) :
    (refused state error).andThen next = refused state error := rfl

@[simp] theorem mk_ok_andThen (value : α) (state : σ) (log : List LogEvent)
    (tally : List TallyEvent) (next : σ → α → Outcome σ β) :
    (mk (.ok value) state log tally).andThen next =
      ⟨(next state value).result, (next state value).state, log ++ (next state value).log,
        tally ++ (next state value).tally⟩ := rfl

@[simp] theorem mk_embed (result : Except PathError α) (state : σ) (log : List LogEvent)
    (tally : List TallyEvent) (f : σ → τ) :
    (mk result state log tally).embed f = ⟨result, f state, log, tally⟩ := rfl

@[simp] theorem refused_embed (state : σ) (error : PathError) (f : σ → τ) :
    (refused state error : Outcome σ α).embed f = refused (f state) error := rfl

/-- Where no step is refused, a run over a list takes every step. -/
theorem forEach_eq {step : σ → Outcome σ α} {value : σ → α} {next : σ → σ}
    {log : σ → List LogEvent} (h : ∀ x, step x = ⟨.ok (value x), next x, log x, []⟩)
    (xs : List σ) :
    forEach step xs = ⟨.ok (xs.map value), xs.map next, xs.flatMap log, []⟩ := by
  induction xs with
  | nil => rfl
  | cons x xs ih =>
    simp only [forEach, h, ih]
    rfl

end Outcome

/-! ## Stages -/

namespace Access

variable {Mode : Type} {modeLabel : Mode → String} {access : Access Mode} {next : Stage}

theorem moveTo_of_canMove (h : access.stage.canMove next = true) :
    access.moveTo modeLabel next =
      ⟨.ok (), { access with stage := next },
        [.stageChanged (access.label modeLabel) access.stage next], []⟩ := by
  unfold moveTo
  rw [Stage.moveTo, if_pos h]
  rfl

theorem moveTo_of_not_canMove (h : access.stage.canMove next = false) :
    access.moveTo modeLabel next = .refused access (.illegalMove access.stage next) := by
  unfold moveTo
  rw [Stage.moveTo, if_neg (Bool.eq_false_iff.mp h)]

end Access

namespace Path

theorem moveTo_of_canMove {path : Path} {next : Stage} (h : path.stage.canMove next = true) :
    path.moveTo next =
      ⟨.ok (), { path with stage := next }, [.stageChanged path.render path.stage next], []⟩ :=
  Access.moveTo_of_canMove h

theorem moveTo_of_not_canMove {path : Path} {next : Stage}
    (h : path.stage.canMove next = false) :
    path.moveTo next = .refused path (.illegalMove path.stage next) :=
  Access.moveTo_of_not_canMove h

end Path

theorem Stage.eq_created_of_canMove {stage : Stage}
    (h : stage.canMove .equalityExtracted = true) : stage = .created := by
  revert h
  cases stage <;> decide

theorem Stage.canMove_discarded (stage : Stage) : stage.canMove .discarded = !stage.isFinal := by
  cases stage <;> rfl

theorem Stage.canMove_correlatedSplit_iff {stage : Stage} :
    stage.canMove .correlatedSplit = true ↔ stage.rank < Stage.correlatedSplit.rank := by
  cases stage <;> decide

theorem Stage.canMove_selected_iff {stage : Stage} :
    stage.canMove .selected = true ↔ stage = .rangesBuilt := by
  cases stage <;> decide

namespace Path

/-! ## Working stages -/

theorem keys_of_index? {path : Path} {index : Index} (h : path.index? = some index) :
    path.keys = index.keys := by
  unfold keys
  rw [h]

theorem index?_eq_none_iff {path : Path} :
    path.index? = none ↔ path.isTable = true ∨ path.isUnion = true := by
  obtain ⟨mode, _⟩ := path
  cases mode with
  | single single => cases single <;> simp [index?, isTable, isUnion]
  | union => simp [index?, isTable, isUnion]

theorem bindPrefix_cases (path : Path) (equalities prefixCount : Nat) (conditions : List Expr) :
    (∃ error, path.bindPrefix equalities prefixCount conditions = .refused path error) ∨
      ∃ index, path.index? = some index ∧ path.stage = .created ∧ equalities ≤ prefixCount ∧
        prefixCount ≤ conditions.length ∧ conditions.length ≤ index.keys.length ∧
          path.bindPrefix equalities prefixCount conditions =
            ⟨.ok (), { path with
                stage := .equalityExtracted, conditions, prefixCount
                equalityCount := equalities },
              [.stageChanged path.render path.stage .equalityExtracted], []⟩ := by
  unfold bindPrefix
  split
  · exact .inl ⟨_, rfl⟩
  · next index hindex =>
    dsimp only
    split
    · exact .inl ⟨_, rfl⟩
    · split
      · exact .inl ⟨_, rfl⟩
      · split
        · exact .inl ⟨_, rfl⟩
        · next hequalities hconditions =>
          cases hmove : path.stage.canMove .equalityExtracted with
          | false =>
            rw [moveTo_of_not_canMove hmove]
            exact .inl ⟨_, rfl⟩
          | true =>
            rw [moveTo_of_canMove hmove]
            exact .inr ⟨index, hindex, Stage.eq_created_of_canMove hmove, by omega, by omega,
              by omega, rfl⟩

/-- The path after its seek has been extended. -/
def extendedBy (path : Path) (extension : Seek.Extension) : Path :=
  { path with
    stage := .correlatedSplit
    conditions := path.conditions ++ extension.access
    tableFilters := extension.residual }

section

variable {path : Path} {index : Index}

theorem extendSeek_of_index?_eq_none (h : path.index? = none) (compatible : Compatibility) :
    path.extendSeek compatible = .refused path (.noSingleIndex .correlatedSplit) := by
  unfold extendSeek
  rw [h]

theorem extendSeek_of_keys_lt (hindex : path.index? = some index)
    (hexcess : index.keys.length < path.prefixCount) (compatible : Compatibility) :
    path.extendSeek compatible =
      .refused path (.prefixOutOfRange path.prefixCount index.keys.length) := by
  unfold extendSeek
  rw [hindex]
  exact if_pos hexcess

theorem extendSeek_of_not_canMove (hindex : path.index? = some index)
    (hwithin : path.prefixCount ≤ index.keys.length)
    (hmove : path.stage.canMove .correlatedSplit = false) (compatible : Compatibility) :
    path.extendSeek compatible = .refused path (.illegalMove path.stage .correlatedSplit) := by
  have hstage : path.stage.moveTo .correlatedSplit =
      .error (.illegalMove path.stage .correlatedSplit) := if_neg (by simp [hmove])
  unfold extendSeek
  rw [hindex]
  dsimp only
  rw [if_neg (Nat.not_lt_of_le hwithin), hstage]

/-- A range condition that stands after the prefix leaves nothing to bind. -/
theorem extendSeek_of_conditions_ne (hindex : path.index? = some index)
    (hwithin : path.prefixCount ≤ index.keys.length)
    (hmove : path.stage.canMove .correlatedSplit = true)
    (hconditions : path.conditions.length ≠ path.prefixCount) (compatible : Compatibility) :
    path.extendSeek compatible =
      ⟨.ok 0, { path with stage := .correlatedSplit },
        [.stageChanged path.render path.stage .correlatedSplit], []⟩ := by
  have hstage : path.stage.moveTo .correlatedSplit = .ok .correlatedSplit := if_pos hmove
  unfold extendSeek
  rw [hindex]
  dsimp only
  rw [if_neg (Nat.not_lt_of_le hwithin), hstage]
  dsimp only
  rw [if_pos hconditions, moveTo_of_canMove hmove]
  rfl

/-- Without a range condition after the prefix, the seek is extended by what a walk binds. -/
theorem extendSeek_of_conditions_eq (hindex : path.index? = some index)
    (hwithin : path.prefixCount ≤ index.keys.length)
    (hmove : path.stage.canMove .correlatedSplit = true)
    (hconditions : path.conditions.length = path.prefixCount) (compatible : Compatibility) :
    let report := Seek.reportedExtension compatible index.keys path.tableFilters path.prefixCount
    let extension := Seek.extend compatible index.keys path.tableFilters path.prefixCount
    path.extendSeek compatible =
      ⟨.ok extension.access.length, path.extendedBy extension,
        report.log ++ [.stageChanged path.render path.stage .correlatedSplit], report.tally⟩ := by
  intro report extension
  have hstage : path.stage.moveTo .correlatedSplit = .ok .correlatedSplit := if_pos hmove
  let bound : Path :=
    { path with
      conditions := path.conditions ++ extension.access
      tableFilters := extension.residual }
  have hmoved : bound.moveTo .correlatedSplit = _ := moveTo_of_canMove hmove
  unfold extendSeek
  rw [hindex]
  dsimp only
  rw [if_neg (Nat.not_lt_of_le hwithin), hstage]
  dsimp only
  rw [if_neg (not_not.mpr hconditions)]
  simp only [Seek.reportedExtension, Outcome.mk_embed, Outcome.mk_ok_andThen]
  rw [show Seek.Walk.toExtension _ _ = extension from rfl, hmoved]
  rfl

end

theorem extendSeek_cases (path : Path) (compatible : Compatibility) :
    (∃ error, path.extendSeek compatible = .refused path error) ∨
      (∃ index, path.index? = some index ∧ path.stage.canMove .correlatedSplit = true ∧
        path.conditions.length ≠ path.prefixCount ∧
          path.extendSeek compatible =
            ⟨.ok 0, { path with stage := .correlatedSplit },
              [.stageChanged path.render path.stage .correlatedSplit], []⟩) ∨
        ∃ index, path.index? = some index ∧ path.stage.canMove .correlatedSplit = true ∧
          path.conditions.length = path.prefixCount ∧ path.prefixCount ≤ index.keys.length ∧
            let report := Seek.reportedExtension compatible index.keys path.tableFilters
              path.prefixCount
            let extension := Seek.extend compatible index.keys path.tableFilters path.prefixCount
            path.extendSeek compatible =
              ⟨.ok extension.access.length, path.extendedBy extension,
                report.log ++ [.stageChanged path.render path.stage .correlatedSplit],
                report.tally⟩ := by
  cases hindex : path.index? with
  | none => exact .inl ⟨_, extendSeek_of_index?_eq_none hindex compatible⟩
  | some index =>
    rcases Nat.lt_or_ge index.keys.length path.prefixCount with hexcess | hwithin
    · exact .inl ⟨_, extendSeek_of_keys_lt hindex hexcess compatible⟩
    · cases hmove : path.stage.canMove .correlatedSplit with
      | false => exact .inl ⟨_, extendSeek_of_not_canMove hindex hwithin hmove compatible⟩
      | true =>
        by_cases hconditions : path.conditions.length = path.prefixCount
        · exact .inr (.inr ⟨index, rfl, rfl, hconditions, hwithin,
            extendSeek_of_conditions_eq hindex hwithin hmove hconditions compatible⟩)
        · exact .inr (.inl ⟨index, rfl, rfl, hconditions,
            extendSeek_of_conditions_ne hindex hwithin hmove hconditions compatible⟩)

/-- The path after the filters that the index answers have gone behind its index filters. -/
def separatedBy (path : Path) (index : Index) : Path :=
  { path with
    indexFilters := path.indexFilters ++ path.tableFilters.filter index.answers
    tableFilters := path.tableFilters.filter fun filter ↦ !index.answers filter }

/-- Where the index answers no table filter, there is nothing to separate. -/
theorem separatedBy_of_unanswered {path : Path} {index : Index}
    (h : ∀ filter ∈ path.tableFilters, index.answers filter = false) :
    path.separatedBy index = path := by
  have hanswered : path.tableFilters.filter index.answers = [] := by
    rw [List.filter_eq_nil_iff]
    intro filter hmem
    rw [h filter hmem]
    exact Bool.false_ne_true
  have hothers : path.tableFilters.filter (fun filter ↦ !index.answers filter) =
      path.tableFilters := by
    rw [List.filter_eq_self]
    intro filter hmem
    rw [h filter hmem]
    rfl
  unfold separatedBy
  rw [hanswered, hothers, List.append_nil]

theorem separateFilters_cases (path : Path) :
    (∃ error, path.separateFilters = .refused path error) ∨
      ∃ index, path.index? = some index ∧
        (path.stage = .equalityExtracted ∨ path.stage = .correlatedSplit) ∧
          path.separateFilters = .done (path.separatedBy index) () := by
  unfold separateFilters
  split
  · exact .inl ⟨_, rfl⟩
  · next index hindex =>
    split
    · next hstage =>
      refine .inr ⟨index, hindex, hstage, ?_⟩
      rw [List.partition_eq_filter_filter]
      rfl
    · exact .inl ⟨_, rfl⟩

/-- Only estimates that fail their check leave a trace in the log. -/
theorem setEstimates_cases (path : Path) (estimates : RowEstimates) (settings : Settings) :
    (∃ error, estimates.check settings.refuseGrowth = .error error ∧
        path.setEstimates estimates settings =
          ⟨.error error, path, [.estimatesRejected path.render error], []⟩) ∨
      (∃ error, path.setEstimates estimates settings = .refused path error) ∨
        estimates.check settings.refuseGrowth = .ok () ∧
          path.stage.canMove .rangesBuilt = true ∧
            path.setEstimates estimates settings =
              ⟨.ok (), { path with stage := .rangesBuilt, estimates := some estimates },
                [.stageChanged path.render path.stage .rangesBuilt], []⟩ := by
  unfold setEstimates
  split
  · next error hcheck => exact .inl ⟨error, hcheck, rfl⟩
  · next hcheck =>
    cases hmove : path.stage.canMove .rangesBuilt with
    | false =>
      rw [moveTo_of_not_canMove hmove]
      exact .inr (.inl ⟨_, rfl⟩)
    | true =>
      rw [moveTo_of_canMove hmove]
      exact .inr (.inr ⟨hcheck, rfl, rfl⟩)

end Path

/-! ## Unions -/

namespace Path

/-- Paths that are no unions are the branches they turn into. -/
theorem map_toPath_filterMap_toBranch? {partials : List Path}
    (h : ∀ part ∈ partials, part.isUnion = false) :
    (partials.filterMap toBranch?).map Branch.toPath = partials := by
  induction partials with
  | nil => rfl
  | cons part partials ih =>
    obtain ⟨hpart, hpartials⟩ := List.forall_mem_cons.mp h
    cases hbranch : part.toBranch? with
    | none =>
      obtain ⟨mode, _⟩ := part
      cases mode with
      | single => simp [toBranch?] at hbranch
      | union => simp [isUnion] at hpart
    | some branch =>
      rw [List.filterMap_cons_some hbranch, List.map_cons, ih hpartials,
        toBranch?_eq_some_iff.mp hbranch]

/-- A union is refused, or it has the paths united as its branches and is as just created. -/
theorem union_cases (settings : Settings) (partials : List Path) (disjunctive : Bool)
    (filters : List Expr) :
    (∃ error, union settings partials disjunctive filters = .refused () error) ∨
      ∃ branches : List Branch, branches ≠ [] ∧ partials = branches.map Branch.toPath ∧
        (∀ filter ∈ filters, ∀ branch ∈ branches, ∀ other ∈ branch.tableFilters,
          other.equal filter = false) ∧
          union settings partials disjunctive filters =
            ⟨.ok (.create (.union branches disjunctive) filters), (), [],
              [.union branches.length]⟩ := by
  unfold union
  split
  · exact .inl ⟨_, rfl⟩
  · split
    · exact .inl ⟨_, rfl⟩
    · next hnonempty =>
      split
      · exact .inl ⟨_, rfl⟩
      · next hsingle =>
        dsimp only
        split
        · exact .inl ⟨_, rfl⟩
        · next hfresh =>
          have hpartials : (partials.filterMap toBranch?).map Branch.toPath = partials := by
            apply map_toPath_filterMap_toBranch?
            simpa using hsingle
          refine .inr ⟨partials.filterMap toBranch?, ?_, hpartials.symm, ?_, ?_⟩
          · intro hempty
            rw [hempty] at hpartials
            simp [← hpartials] at hnonempty
          · intro filter hfilter branch hbranch other hother
            have hnot := List.find?_eq_none.mp hfresh filter hfilter
            have hpart : branch.toPath ∈ partials := hpartials ▸ List.mem_map_of_mem hbranch
            by_contra hequal
            refine hnot (List.any_eq_true.mpr ⟨_, hpart, List.any_eq_true.mpr ⟨other, hother, ?_⟩⟩)
            simpa using hequal
          · have hlength := congrArg List.length hpartials
            rw [List.length_map] at hlength
            rw [hlength]

theorem eq_create_of_union {settings : Settings} {partials : List Path} {disjunctive : Bool}
    {filters : List Expr} {path : Path}
    (h : (union settings partials disjunctive filters).result = .ok path) :
    ∃ branches : List Branch, branches ≠ [] ∧ partials = branches.map Branch.toPath ∧
      path = .create (.union branches disjunctive) filters := by
  obtain ⟨error, hrefused⟩ | ⟨branches, hne, hpartials, -, hunited⟩ :=
    union_cases settings partials disjunctive filters
  · rw [hrefused] at h
    cases h
  · rw [hunited] at h
    exact ⟨branches, hne, hpartials, (Except.ok.inj h).symm⟩

end Path

/-! ## Ends -/

namespace Branch

/-- The branch after it has been discarded unless it had ended before. -/
def ended (branch : Branch) : Branch :=
  if branch.stage.isFinal then branch else { branch with stage := .discarded }

def endLog (branch : Branch) : List LogEvent :=
  if branch.stage.isFinal then [] else [.stageChanged branch.render branch.stage .discarded]

theorem discardIfLive_eq (branch : Branch) :
    branch.discardIfLive = ⟨.ok !branch.stage.isFinal, branch.ended, branch.endLog, []⟩ := by
  unfold discardIfLive Access.discardIfLive ended endLog
  cases hfinal : branch.stage.isFinal with
  | true => rfl
  | false =>
    have hmove : branch.stage.canMove .discarded = true := by
      rw [Stage.canMove_discarded, hfinal]
      rfl
    have hmoved : branch.moveTo .discarded = _ := Access.moveTo_of_canMove hmove
    simp only [hmoved]
    rfl

end Branch

namespace Path

def endedMode : Mode → Mode
  | .single single => .single single
  | .union branches disjunctive => .union (branches.map Branch.ended) disjunctive

/-- The path after it has been discarded unless it had ended before. -/
def ended (path : Path) : Path :=
  if path.stage.isFinal then path
  else { path with stage := .discarded, mode := endedMode path.mode }

def endLog (path : Path) : List LogEvent :=
  if path.stage.isFinal then []
  else .stageChanged path.render path.stage .discarded :: path.branches.flatMap Branch.endLog

theorem isFinal_ended (path : Path) : path.ended.stage.isFinal = true := by
  unfold ended
  split
  · next hfinal => exact hfinal
  · rfl

theorem stage_ended (path : Path) :
    path.ended.stage = if path.stage = .selected then .selected else .discarded := by
  unfold ended
  cases hstage : path.stage <;> simp [Stage.isFinal, hstage]

@[simp] theorem conditions_ended (path : Path) : path.ended.conditions = path.conditions := by
  unfold ended
  split <;> rfl

@[simp] theorem tableFilters_ended (path : Path) : path.ended.tableFilters = path.tableFilters := by
  unfold ended
  split <;> rfl

@[simp] theorem indexFilters_ended (path : Path) : path.ended.indexFilters = path.indexFilters := by
  unfold ended
  split <;> rfl

@[simp] theorem index?_ended (path : Path) : path.ended.index? = path.index? := by
  obtain ⟨mode, _⟩ := path
  unfold ended
  split
  · rfl
  · cases mode <;> rfl

theorem ended_of_live {path : Path} (h : path.stage.isFinal = false) :
    path.ended = { path with stage := .discarded, mode := endedMode path.mode } :=
  if_neg (Bool.eq_false_iff.mp h)

theorem branches_ended {path : Path} (h : path.stage.isFinal = false) :
    path.ended.branches = path.branches.map Branch.ended := by
  rw [ended_of_live h]
  obtain ⟨mode, _⟩ := path
  cases mode <;> rfl

theorem finish_selected_of_rangesBuilt {path : Path} (h : path.stage = .rangesBuilt) :
    path.finish .selected =
      ⟨.ok (), { path with stage := .selected },
        [.stageChanged path.render path.stage .selected], []⟩ := by
  unfold finish
  rw [moveTo_of_canMove (Stage.canMove_selected_iff.mpr h)]
  rfl

theorem finish_selected_of_ne {path : Path} (h : path.stage ≠ .rangesBuilt) :
    path.finish .selected = .refused path (.illegalMove path.stage .selected) := by
  have hmove : path.stage.canMove .selected = false :=
    Bool.eq_false_iff.mpr (mt Stage.canMove_selected_iff.mp h)
  unfold finish
  rw [moveTo_of_not_canMove hmove]
  rfl

theorem finish_discarded_of_live {path : Path} (h : path.stage.isFinal = false) :
    path.finish .discarded =
      ⟨.ok (), { path with stage := .discarded, mode := endedMode path.mode },
        .stageChanged path.render path.stage .discarded :: path.branches.flatMap Branch.endLog,
        []⟩ := by
  have hmove : path.stage.canMove .discarded = true := by
    rw [Stage.canMove_discarded, h]
    rfl
  unfold finish
  rw [moveTo_of_canMove hmove]
  cases hmode : path.mode with
  | single single => simp [endedMode, branches, hmode, Outcome.done]
  | union branches disjunctive =>
    simp [endedMode, Path.branches, hmode, Outcome.done, Access.withMode,
      Outcome.forEach_eq Branch.discardIfLive_eq]

theorem discardIfLive_eq (path : Path) :
    path.discardIfLive = ⟨.ok !path.stage.isFinal, path.ended, path.endLog, []⟩ := by
  unfold discardIfLive Access.discardIfLive ended endLog
  cases hfinal : path.stage.isFinal with
  | true => rfl
  | false =>
    simp only [finish_discarded_of_live hfinal, Bool.false_eq_true, if_false]
    simp [Outcome.done]

end Path

end IndexAccess
