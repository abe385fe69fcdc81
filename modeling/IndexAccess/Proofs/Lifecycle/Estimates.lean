import IndexAccess.Proofs.Binary64.Order
import IndexAccess.Proofs.Lifecycle.Representation

/-!
# Estimates of the paths that are compared

Whether estimates that grow are refused when they are recorded is a matter of settings, which may
differ from one recording to the next.  They are looked at again, whatever the settings, before a
path is ranked by cost and before it is selected.  So the estimates of a path that is ranked or has
been selected are numbers of rows that never grow from one step to the next.

A selection lets a path pass that has no estimates at all.  There is none, since the stage from
which a path is selected is the one that records them; and no later step touches them.
-/

namespace IndexAccess

namespace RowEstimates

/-- Numbers of rows, none of them larger than the one before. -/
structure Falling (estimates : RowEstimates) : Prop where
  finite : ∀ rows ∈ estimates.values, rows.isFinite = true
  nonneg : ∀ rows ∈ estimates.values, 0 ≤ rows.value
  index_le : estimates.index.value ≤ estimates.access.value
  table_le : ∀ rows ∈ estimates.table, rows.value ≤ estimates.index.value

theorem isRowCount_iff {rows : Binary64} :
    isRowCount rows = true ↔ rows.isFinite = true ∧ 0 ≤ rows.value := by
  unfold isRowCount
  rw [Bool.and_eq_true]
  apply and_congr_right
  intro hfinite
  have hzero : Binary64.zero.isFinite = true := by decide
  rw [Binary64.lt_eq_not_le (Binary64.isNaN_eq_false_of_isFinite hfinite)
    (Binary64.isNaN_eq_false_of_isFinite hzero), Bool.not_not,
    Binary64.le_iff_value_le hzero hfinite, Binary64.value_zero]

theorem grows_eq_false_iff {estimates : RowEstimates}
    (h : ∀ rows ∈ estimates.values, rows.isFinite = true) :
    estimates.grows = false ↔ estimates.index.value ≤ estimates.access.value ∧
      ∀ rows ∈ estimates.table, rows.value ≤ estimates.index.value := by
  have haccess : estimates.access.isFinite = true := h _ (by simp [values])
  have hindex : estimates.index.isFinite = true := h _ (by simp [values])
  have htable : ∀ rows ∈ estimates.table, rows.isFinite = true := by
    intro rows hrows
    exact h rows (by simp [values, Option.mem_def.mp hrows])
  unfold grows
  rw [Bool.or_eq_false_iff, Binary64.lt_eq_not_le (Binary64.isNaN_eq_false_of_isFinite haccess)
    (Binary64.isNaN_eq_false_of_isFinite hindex), Bool.not_eq_false',
    Binary64.le_iff_value_le hindex haccess]
  apply and_congr_right
  intro _
  cases hrows : estimates.table with
  | none => simp
  | some rows => simp [← Binary64.le_iff_value_le (htable rows hrows) hindex]

/-- The check that refuses growth accepts nothing but numbers of rows that fall. -/
theorem check_true_eq_ok_iff {estimates : RowEstimates} :
    estimates.check true = .ok () ↔ estimates.Falling := by
  rw [check_eq_ok_iff]
  constructor
  · rintro ⟨hcounts, hgrows⟩
    have hfinite : ∀ rows ∈ estimates.values, rows.isFinite = true :=
      fun rows hrows ↦ (isRowCount_iff.mp (hcounts rows hrows)).1
    obtain ⟨hindex, htable⟩ := (grows_eq_false_iff hfinite).mp (hgrows rfl)
    exact ⟨hfinite, fun rows hrows ↦ (isRowCount_iff.mp (hcounts rows hrows)).2, hindex, htable⟩
  · intro h
    refine ⟨fun rows hrows ↦ isRowCount_iff.mpr ⟨h.finite rows hrows, h.nonneg rows hrows⟩, ?_⟩
    intro _
    exact (grows_eq_false_iff h.finite).mpr ⟨h.index_le, h.table_le⟩

end RowEstimates

namespace Path

variable {path later : Path} {filters : List Expr}

/-- The path has estimates, and they fall. -/
def Vetted (path : Path) : Prop :=
  ∃ estimates, path.estimates = some estimates ∧ estimates.Falling

theorem vetted_of_isRankable (h : path.isRankable = true) : path.Vetted := by
  have hcheck := ((Bool.and_eq_true ..).mp h).2
  cases hestimates : path.estimates with
  | none => simp [hestimates] at hcheck
  | some estimates =>
    refine ⟨estimates, hestimates, RowEstimates.check_true_eq_ok_iff.mp ?_⟩
    rw [hestimates] at hcheck
    cases hresult : estimates.check true with
    | error error => simp [hresult, Except.isOk, Except.toBool] at hcheck
    | ok => rfl

theorem vetted_of_recheck (hestimates : path.estimates.isSome = true)
    (h : Candidates.recheck path = .ok ()) : path.Vetted := by
  obtain ⟨estimates, hsome⟩ := Option.isSome_iff_exists.mp hestimates
  unfold Candidates.recheck at h
  rw [hsome] at h
  exact ⟨estimates, hsome, RowEstimates.check_true_eq_ok_iff.mp h⟩

/-- A path becomes selected only by a selection, and nothing happens to its estimates later. -/
theorem Step.vetted (hstep : Step path later) (hconsistent : path.Consistent filters)
    (h : path.stage = .selected → path.Vetted) : later.stage = .selected → later.Vetted := by
  cases hstep with
  | stay => exact h
  | hinted => exact h
  | bound => exact fun hstage ↦ nomatch hstage
  | skipped => exact fun hstage ↦ nomatch hstage
  | extended => exact fun hstage ↦ nomatch hstage
  | separated => exact h
  | estimated => exact fun hstage ↦ nomatch hstage
  | won hstage hcounted =>
    intro _
    exact vetted_of_recheck (hconsistent.estimated (.inl hstage)) hcounted
  | ended =>
    unfold Path.ended
    split
    · exact h
    · exact fun hstage ↦ nomatch hstage

theorem Reachable.vetted (h : Reachable filters path) : path.stage = .selected → path.Vetted := by
  induction h with
  | table => exact fun hstage ↦ nomatch hstage
  | index => exact fun hstage ↦ nomatch hstage
  | union built hpartials h =>
    obtain ⟨branches, -, -, rfl⟩ := eq_create_of_union h
    exact fun hstage ↦ nomatch hstage
  | @after filters path h action ih => exact (step_after path action).vetted h.consistent ih

/-- A path that the planner may compare by cost, or has selected. -/
inductive Surfaced : Path → Prop where
  | ranked {candidates : Candidates} {position : Nat} {path : Path}
      (h : candidates.Reachable) (hrank : (position, path) ∈ candidates.rankable) : Surfaced path
  | selected {filters : List Expr} {path : Path} (h : Reachable filters path)
      (hstage : path.stage = .selected) : Surfaced path

/-- Whatever settings were in force when they were recorded, the estimates of a path that is ranked
or has been selected are finite numbers, not negative, and do not grow. -/
theorem estimates_falling_of_surfaced (h : path.Surfaced) :
    ∃ estimates, path.estimates = some estimates ∧ estimates.Falling := by
  cases h with
  | ranked _ hrank =>
    obtain ⟨⟨member, position⟩, hmember, heq⟩ := List.mem_map.mp hrank
    obtain rfl : member = path := congrArg Prod.snd heq
    have hkept := (List.mem_filter.mp hmember).2
    exact vetted_of_isRankable ((Bool.and_eq_true ..).mp hkept).1
  | selected h hstage => exact h.vetted hstage

/-- Ten rows, ten rows and five rows. -/
def fallingRows : RowEstimates :=
  ⟨⟨0x4024000000000000⟩, ⟨0x4024000000000000⟩, some ⟨0x4014000000000000⟩⟩

/-- A table read whose estimates are recorded without a look at growth. -/
def lenientRead : Path :=
  (Path.table none []).after
    (.setEstimates fallingRows { Settings.standard with refuseGrowth := false })

/-- The same path after it has been selected as the only candidate. -/
def selectedRead : Path := lenientRead.after (.compete [] [] none 0)

theorem estimates_falling_of_surfaced_selectedRead :
    selectedRead.Surfaced ∧
      ∃ estimates, selectedRead.estimates = some estimates ∧ estimates.Falling := by
  have hlenient : Reachable [] lenientRead := (Reachable.table none []).after _
  have hsurfaced : selectedRead.Surfaced := .selected (hlenient.after _) rfl
  exact ⟨hsurfaced, estimates_falling_of_surfaced hsurfaced⟩

end Path

end IndexAccess
