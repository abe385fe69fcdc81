import IndexAccess.Proofs.Lifecycle.EntryFilters
import IndexAccess.Proofs.Lifecycle.ExtendedSeek
import IndexAccess.Proofs.Seek.Placement

/-!
# Separating the filters

The first separation takes every filter that the index answers from the table filters.  Nothing puts
one back: afterwards a seek may be extended and filters may be separated again, but a filter of the
table row is only ever taken away.  So the index filters are found once and for all, and separating
again finds nothing to move.

Whether a seek is extended before the filters are separated or after it makes a difference, though
both orders are allowed.  A filter that a whole key could settle mentions the column of that key and
no other, so the index answers it.  Once such filters are gone, an extended seek stops at the first
whole key; what it binds before that are keys that keep a part of their column, and these settle
nothing.
-/

namespace IndexAccess

/-! ## Seeks without a filter for whole keys -/

namespace Seek

variable {compatible : Compatibility}

theorem columns_of_isFixed {value : Expr} (h : isFixed value = true) : value.columns = [] := by
  cases value with
  | constant => rfl
  | correlated => rfl
  | column => cases h
  | call => cases h

theorem Equates.columns_eq {column : Column} {filter : Expr} (h : Equates column filter) :
    filter.columns = [column] := by
  cases h with
  | onLeft hvalue => simp [Expr.columns, Expr.columnsOfAll, columns_of_isFixed hvalue]
  | onRight hvalue => simp [Expr.columns, Expr.columnsOfAll, columns_of_isFixed hvalue]

/-- A filter usable at a whole key mentions the column of the key alone, which an entry holds. -/
theorem answers_of_allows {index : Index} {key : KeyColumn} {filter : Expr}
    (hkey : key ∈ index.keys) (hwhole : key.isWhole = true)
    (h : allows compatible key.column filter = true) : index.answers filter = true := by
  obtain ⟨column, hequates, hsame⟩ :=
    exists_equates_of_judge (judge_ne_unrelated_of_allows h)
  rw [Index.answers_iff, hequates.columns_eq]
  intro mentioned hmem
  obtain rfl := List.mem_singleton.mp hmem
  exact .inl ⟨key, hkey, Option.isNone_iff_eq_none.mp hwhole, (Column.sameAs_iff.mp hsame).1.symm⟩

variable {keys : List KeyColumn} {filters : List Expr} {prefixCount : Nat}

/-- No filter is usable at a key that holds the whole of its column. -/
def NoneForWhole (compatible : Compatibility) (keys : List KeyColumn) (filters : List Expr) : Prop :=
  ∀ key ∈ keys, key.isWhole = true → ∀ filter ∈ filters, allows compatible key.column filter = false

theorem NoneForWhole.isWhole_eq_false (h : NoneForWhole compatible keys filters) {binding : Binding}
    (hbinding : binding ∈ (walkFrom compatible keys filters prefixCount).bindings) :
    binding.key.isWhole = false := by
  have hkey : binding.key ∈ keys := List.mem_of_mem_drop (key_mem_of_mem_bindings hbinding)
  have hfilter : binding.filter.1 ∈ filters :=
    List.fst_mem_of_mem_zipIdx (filter_mem_of_mem_bindings hbinding)
  rw [← Bool.not_eq_true]
  intro hwhole
  have hallows := allows_of_mem_bindings hbinding
  rw [h binding.key hkey hwhole binding.filter.1 hfilter] at hallows
  cases hallows

theorem NoneForWhole.isWhole_getElem? (h : NoneForWhole compatible keys filters) {i : Nat}
    (hi : i < (extend compatible keys filters prefixCount).access.length) :
    ∃ key, keys[prefixCount + i]? = some key ∧ key.isWhole = false := by
  rw [length_extend_access_eq] at hi
  have hget := List.getElem?_eq_getElem hi
  exact ⟨_, (walkFrom_bindings_getElem? compatible keys filters prefixCount hget).1,
    h.isWhole_eq_false (List.mem_of_getElem? hget)⟩

theorem NoneForWhole.extend_consumed (h : NoneForWhole compatible keys filters) :
    (extend compatible keys filters prefixCount).consumed = 0 := by
  rw [extend_consumed_eq, ← map_key_walkFrom_bindings, List.countP_map, List.countP_eq_zero]
  intro binding hbinding
  exact Bool.eq_false_iff.mp (h.isWhole_eq_false hbinding)

theorem NoneForWhole.extend_residual (h : NoneForWhole compatible keys filters) :
    (extend compatible keys filters prefixCount).residual = filters := by
  have hlength := length_extend_residual_add_consumed compatible keys filters prefixCount
  have hconsumed : (extend compatible keys filters prefixCount).consumed = 0 := h.extend_consumed
  -- What stays open is a sublist of the filters, and as long as they are.
  apply (extend_residual_sublist compatible keys filters prefixCount).eq_of_length
  omega

theorem NoneForWhole.extend_partialMatches (h : NoneForWhole compatible keys filters) :
    (extend compatible keys filters prefixCount).partialMatches =
      (extend compatible keys filters prefixCount).access.length := by
  have hlength := length_extend_access compatible keys filters prefixCount
  have hconsumed : (extend compatible keys filters prefixCount).consumed = 0 := h.extend_consumed
  omega

end Seek

namespace Path

variable {path later : Path} {filters : List Expr} {index : Index}

/-! ## A seek after the separation -/

/-- A seek that succeeds with `bound` further keys, none of which holds the whole of its column.  No
filter is consumed, and the filters stay as they are. -/
structure SeekInPart (path : Path) (index : Index) (bound : Nat) (outcome : Outcome Path Nat) :
    Prop where
  result : outcome.result = .ok bound
  tableFilters : outcome.state.tableFilters = path.tableFilters
  indexFilters : outcome.state.indexFilters = path.indexFilters
  conditions : ∃ access, outcome.state.conditions = path.conditions ++ access ∧
    access.length = bound
  inPart : ∀ slot, path.conditions.length ≤ slot → slot < path.conditions.length + bound →
    ∃ key kept, index.keys[slot]? = some key ∧ key.kept = some kept
  tally : ∀ event ∈ outcome.tally, ∃ rejected, event = .extension bound 0 bound rejected

theorem Separated.noneForWhole (h : path.Separated index) (compatible : Compatibility) :
    Seek.NoneForWhole compatible index.keys path.tableFilters := by
  intro key hkey hwhole filter hfilter
  rw [← Bool.not_eq_true]
  intro hallows
  have hanswered := Seek.answers_of_allows hkey hwhole hallows
  rw [h.2 filter hfilter] at hanswered
  cases hanswered

theorem SeekPassed.seekInPart {outcome : Outcome Path Nat} (h : path.SeekPassed outcome)
    (index : Index) : path.SeekInPart index 0 outcome where
  result := h.result
  tableFilters := by rw [h.state]
  indexFilters := by rw [h.state]
  conditions := by
    rw [h.state]
    exact ⟨[], (List.append_nil _).symm, rfl⟩
  inPart := fun _ hlower hupper ↦ absurd hupper (Nat.not_lt.mpr hlower)
  tally := by
    rw [h.tally]
    exact fun _ hevent ↦ nomatch hevent

theorem SeekExtended.seekInPart {compatible : Compatibility} {outcome : Outcome Path Nat}
    (h : path.SeekExtended index compatible
      (Seek.extend compatible index.keys path.tableFilters path.prefixCount) outcome)
    (hconditions : path.conditions.length = path.prefixCount)
    (hnone : Seek.NoneForWhole compatible index.keys path.tableFilters) :
    path.SeekInPart index
      (Seek.extend compatible index.keys path.tableFilters path.prefixCount).access.length
      outcome where
  result := h.result
  tableFilters := by
    rw [h.state]
    exact hnone.extend_residual
  indexFilters := by rw [h.state]
  conditions := by
    rw [h.state]
    exact ⟨_, rfl, rfl⟩
  inPart := by
    intro slot hlower hupper
    obtain ⟨i, rfl⟩ := Nat.exists_eq_add_of_le hlower
    obtain ⟨key, hkey, hpartial⟩ := hnone.isWhole_getElem? (Nat.lt_of_add_lt_add_left hupper)
    obtain ⟨kept, hkept⟩ := Option.isSome_iff_exists.mp (Option.isNone_eq_false_iff.mp hpartial)
    rw [hconditions]
    exact ⟨key, kept, hkey, hkept⟩
  tally := by
    intro event hevent
    rw [h.tally, List.mem_singleton] at hevent
    rw [hevent, Seek.Extension.tallyEvent, hnone.extend_consumed, hnone.extend_partialMatches]
    exact ⟨_, rfl⟩

theorem Separated.seekInPart (h : path.Separated index) (hsound : path.Sound filters)
    (hmove : path.stage.canMove .correlatedSplit = true) (compatible : Compatibility) :
    ∃ bound, path.SeekInPart index bound (path.extendSeek compatible) := by
  have hwithin : path.prefixCount ≤ index.keys.length := hsound.prefixCount_le_index h.1
  by_cases hconditions : path.conditions.length = path.prefixCount
  · have hextended := seekExtended_extendSeek h.1 hwithin hmove hconditions compatible
    exact ⟨_, hextended.seekInPart hconditions (h.noneForWhole compatible)⟩
  · have hpassed := seekPassed_extendSeek h.1 hwithin hmove hconditions compatible
    exact ⟨0, hpassed.seekInPart index⟩

/-- Once the filters of an index path have been separated, a seek that is still to be extended
succeeds, consumes no filter, and binds no key that holds the whole of its column. -/
theorem extendSeek_of_separated (h : Reachable filters path) (hindex : path.index? = some index)
    (hseparated : path.separateFilters.result = .ok ())
    (hlater : Later path.separateFilters.state later) (hstage : later.stage = .equalityExtracted)
    (compatible : Compatibility) :
    later.index? = some index ∧
      ∃ bound, later.SeekInPart index bound (later.extendSeek compatible) := by
  have hsound : later.Sound filters :=
    hlater.keeps Sound.step (h.after .separateFilters).consistent.toSound
  have hsplit : later.Separated index :=
    hlater.keeps Separated.step (separated_separateFilters hindex hseparated)
  have hmove : later.stage.canMove .correlatedSplit = true := by
    rw [hstage]
    rfl
  exact ⟨hsplit.1, hsplit.seekInPart hsound hmove compatible⟩

/-- The path with its first key bound, after one of its two filters has gone to the index filters. -/
def separatedRead : Path := prefixedRead.separateFilters.state

theorem extendSeek_of_separated_separatedRead :
    Reachable partialFilters prefixedRead ∧ prefixedRead.index? = some partialIndex ∧
      prefixedRead.separateFilters.result = .ok () ∧
        Later separatedRead (separatedRead.withForced true) ∧
          (separatedRead.withForced true).stage = .equalityExtracted ∧
            (separatedRead.withForced true).index? = some partialIndex ∧
              ∃ bound, (separatedRead.withForced true).SeekInPart partialIndex bound
                ((separatedRead.withForced true).extendSeek .exact) := by
  have hreach : Reachable partialFilters prefixedRead :=
    (Reachable.index partialIndex partialFilters).after _
  have hlater : Later separatedRead (separatedRead.withForced true) := .after .now (.force true)
  exact ⟨hreach, rfl, rfl, hlater, rfl,
    extendSeek_of_separated hreach rfl rfl hlater rfl .exact⟩

/-- The seek after the separation still binds the key that keeps a part of its column. -/
example : (separatedRead.extendSeek .exact).state.conditions.length = 2 ∧
    (separatedRead.extendSeek .exact).state.tableFilters.length = 1 := by
  decide

/-! ## A separation after the first one -/

theorem Separated.state_separateFilters (h : path.Separated index) :
    path.separateFilters.state = path := by
  obtain ⟨error, hrefused⟩ | ⟨other, hother, -, hdone⟩ := path.separateFilters_cases
  · rw [hrefused]
    rfl
  · obtain rfl : index = other := Option.some.inj (h.1.symm.trans hother)
    rw [hdone]
    exact separatedBy_of_unanswered h.2

/-- The filters have been separated, and `answered` went to the index filters. -/
def SeparatedInto (index : Index) (answered : List Expr) (path : Path) : Prop :=
  path.Separated index ∧ path.indexFilters = answered

theorem SeparatedInto.step {answered : List Expr} (hstep : Step path later)
    (h : SeparatedInto index answered path) : SeparatedInto index answered later := by
  refine ⟨h.1.step hstep, ?_⟩
  cases hstep with
  | @separated other hother =>
    obtain rfl : index = other := Option.some.inj (h.1.1.symm.trans hother)
    rw [separatedBy_of_unanswered h.1.2]
    exact h.2
  | ended => exact (indexFilters_ended path).trans h.2
  | _ => exact h.2

/-! ## The first separation of a run -/

/-- Whether an action separates the filters, and is not refused. -/
def separates (path : Path) : Action → Bool
  | .separateFilters => path.separateFilters.result.isOk
  | .store _ | .force _ | .readRemotely _ | .bindPrefix .. | .extendSeek _ | .setEstimates ..
  | .compete .. => false

/-- How often a run separates the filters. -/
def separations (path : Path) : List Action → Nat
  | [] => 0
  | action :: actions =>
    (if path.separates action then 1 else 0) + (path.after action).separations actions

theorem indexFilters_after {action : Action} (h : path.separates action = false) :
    (path.after action).indexFilters = path.indexFilters := by
  cases action with
  | store => rfl
  | force => rfl
  | readRemotely => rfl
  | bindPrefix equalities prefixCount conditions =>
    simp only [after]
    obtain ⟨error, hrefused⟩ | ⟨_, -, -, -, -, -, hbound⟩ :=
      path.bindPrefix_cases equalities prefixCount conditions
    · rw [hrefused]
      rfl
    · rw [hbound]
  | extendSeek compatible =>
    simp only [after]
    obtain ⟨error, hrefused⟩ | ⟨_, -, -, -, hskipped⟩ | ⟨_, -, -, -, -, hextended⟩ :=
      path.extendSeek_cases compatible
    · rw [hrefused]
      rfl
    · rw [hskipped]
    · rw [hextended]
      rfl
  | separateFilters =>
    simp only [after]
    obtain ⟨error, hrefused⟩ | ⟨_, -, -, hdone⟩ := path.separateFilters_cases
    · rw [hrefused]
      rfl
    · rw [separates, hdone] at h
      cases h
  | setEstimates estimates settings =>
    simp only [after]
    obtain ⟨error, -, hrejected⟩ | ⟨error, hrefused⟩ | ⟨-, -, hestimated⟩ :=
      path.setEstimates_cases estimates settings
    · rw [hrejected]
    · rw [hrefused]
      rfl
    · rw [hestimated]
  | compete before rest choice position =>
    obtain hsame | ⟨-, -, hwon⟩ | hended := path.after_compete_cases before rest choice position
    · rw [hsame]
    · rw [hwon]
      rfl
    · rw [hended]
      exact indexFilters_ended path

theorem indexFilters_afterAll {actions : List Action} (h : path.separations actions = 0) :
    (path.afterAll actions).indexFilters = path.indexFilters := by
  unfold afterAll
  induction actions generalizing path with
  | nil => rfl
  | cons action actions ih =>
    obtain ⟨hhere, hrest⟩ := Nat.add_eq_zero_iff.mp h
    have hnot : path.separates action = false := by
      rw [← Bool.not_eq_true]
      intro hseparates
      rw [if_pos hseparates] at hhere
      cases hhere
    exact (ih hrest).trans (indexFilters_after hnot)

theorem index?_afterAll (path : Path) (actions : List Action) :
    (path.afterAll actions).index? = path.index? := by
  unfold afterAll
  induction actions generalizing path with
  | nil => rfl
  | cons action actions ih => exact (ih _).trans (step_after path action).index?_eq

/-- The first separation of a run puts the filters that mention covered columns only among the index
filters and leaves the others.  Whatever happens to the path from there on, its index filters stay,
and separating again changes nothing. -/
theorem separated_once (index : Index) (filters : List Expr) (actions : List Action)
    (hfirst : (Path.index index filters).separations actions = 0)
    (hseparated : ((Path.index index filters).afterAll actions).separateFilters.result = .ok ()) :
    let path := (Path.index index filters).afterAll actions
    let separated := path.separateFilters.state
    let answered (filter : Expr) : Bool := filter.columns.all fun column ↦ index.covers column.id
    separated =
        { path with
          indexFilters := path.tableFilters.filter answered
          tableFilters := path.tableFilters.filter fun filter ↦ !answered filter } ∧
      ∀ later, Later separated later →
        later.indexFilters = separated.indexFilters ∧
          (later.separateFilters.result = .ok () → later.separateFilters.state = later) := by
  intro path separated answered
  have hindex : path.index? = some index := index?_afterAll (Path.index index filters) actions
  have hnone : path.indexFilters = [] := indexFilters_afterAll hfirst
  have hsplit : separated.Separated index := separated_separateFilters hindex hseparated
  constructor
  · obtain ⟨error, hrefused⟩ | ⟨other, hother, -, hdone⟩ := path.separateFilters_cases
    · rw [hrefused] at hseparated
      cases hseparated
    · obtain rfl : index = other := Option.some.inj (hindex.symm.trans hother)
      have hmoved : separated = path.separatedBy index := congrArg Outcome.state hdone
      rw [hmoved, separatedBy, hnone]
      rfl
  · intro later hlater
    have hkept : SeparatedInto index separated.indexFilters later :=
      hlater.keeps SeparatedInto.step ⟨hsplit, rfl⟩
    exact ⟨hkept.2, fun _ ↦ hkept.1.state_separateFilters⟩

/-- A seek extended between two separations. -/
theorem separated_once_prefixedRead :
    let binds : Action := .bindPrefix 1 1 (partialFilters.drop 1)
    let later := separatedRead.after (.extendSeek .exact)
    (Path.index partialIndex partialFilters).separations [binds] = 0 ∧
      prefixedRead.separateFilters.result = .ok () ∧ Later separatedRead later ∧
        later.indexFilters = separatedRead.indexFilters ∧
          later.separateFilters.result = .ok () ∧ later.separateFilters.state = later := by
  intro binds later
  have hlater : Later separatedRead later := .after .now (.extendSeek .exact)
  obtain ⟨-, hafterwards⟩ := separated_once partialIndex partialFilters [binds] rfl rfl
  obtain ⟨hkept, hagain⟩ := hafterwards later hlater
  exact ⟨rfl, rfl, hlater, hkept, rfl, hagain rfl⟩

end Path

end IndexAccess
