import IndexAccess.Proofs.Lifecycle.Parts
import IndexAccess.Proofs.Seek.Extension

/-!
# What the fields of a path have to do with one another

A path that is reachable is consistent: its counts and conditions stay within its index, a path
without an index has nothing that only an index path can get, estimates are there exactly from the
stage on that records them, and a discarded union has ended with all its branches.  Every step keeps
what concerns the path itself; that an extended seek stays within the index is the length bound of a
walk.  What concerns the branches comes from the paths that a union was made of: none of these is a
union, and they are reachable themselves, so that all of this holds of the branches, too.
-/

namespace IndexAccess

namespace Path

/-- A path over the table or a union, to which nothing happens that takes an index; its filters are
those it was built from. -/
structure Bare (path : Path) (filters : List Expr) : Prop where
  conditions : path.conditions = []
  equalityCount : path.equalityCount = 0
  prefixCount : path.prefixCount = 0
  indexFilters : path.indexFilters = []
  tableFilters : path.tableFilters = filters
  stage : path.stage ≠ .equalityExtracted ∧ path.stage ≠ .correlatedSplit

/-- How the fields of a path hang together, its branches apart.  The path was built from
`filters`. -/
structure Sound (path : Path) (filters : List Expr) : Prop where
  equalityCount_le : path.equalityCount ≤ path.prefixCount
  prefixCount_le : path.prefixCount ≤ path.conditions.length
  conditions_le : path.conditions.length ≤ path.keys.length
  bare : path.index? = none → path.Bare filters
  estimated : path.stage = .rangesBuilt ∨ path.stage = .selected → path.estimates.isSome = true
  unestimated : path.stage = .created ∨ path.stage = .equalityExtracted ∨
    path.stage = .correlatedSplit → path.estimates = none

/-- How the fields of a path hang together, whatever its mode and stage. -/
structure Consistent (path : Path) (filters : List Expr) : Prop extends Sound path filters where
  branches_ne : path.isUnion = true → path.branches ≠ []
  branches_final : path.stage = .discarded → ∀ branch ∈ path.branches, branch.stage.isFinal = true

variable {path later : Path} {filters : List Expr} {index : Index}

/-! ## Creation -/

theorem sound_create (mode : Mode) (filters : List Expr) :
    Sound (.create mode filters) filters where
  equalityCount_le := Nat.le_refl 0
  prefixCount_le := Nat.le_refl 0
  conditions_le := Nat.zero_le _
  bare := fun _ ↦ ⟨rfl, rfl, rfl, rfl, rfl, Stage.noConfusion, Stage.noConfusion⟩
  estimated := fun h ↦ by simp [Access.create] at h
  unestimated := fun _ ↦ rfl

/-! ## Steps -/

/-- A path over an index is sound once its counts, its conditions and its estimates are. -/
theorem sound_of_index? (hindex : path.index? = some index)
    (hequalities : path.equalityCount ≤ path.prefixCount)
    (hprefixCount : path.prefixCount ≤ path.conditions.length)
    (hconditions : path.conditions.length ≤ index.keys.length)
    (hstage : path.stage = .equalityExtracted ∨ path.stage = .correlatedSplit)
    (hestimates : path.estimates = none) : path.Sound filters where
  equalityCount_le := hequalities
  prefixCount_le := hprefixCount
  conditions_le := by
    rw [keys_of_index? hindex]
    exact hconditions
  bare := fun hnone ↦ absurd (hindex.symm.trans hnone) (Option.some_ne_none index)
  estimated := fun hlate ↦ by rcases hstage with h | h <;> simp [h] at hlate
  unestimated := fun _ ↦ hestimates

/-- Before the stage that records them there are no estimates. -/
theorem Sound.estimates_eq_none (h : path.Sound filters)
    (hstage : path.stage.rank < Stage.rangesBuilt.rank) : path.estimates = none := by
  apply h.unestimated
  revert hstage
  cases path.stage <;> decide

theorem Bare.moved (h : path.Bare filters) (mode : Mode) (estimates : Option RowEstimates)
    {stage : Stage} (hstage : stage ≠ .equalityExtracted ∧ stage ≠ .correlatedSplit) :
    Bare { path with mode, stage, estimates } filters :=
  ⟨h.conditions, h.equalityCount, h.prefixCount, h.indexFilters, h.tableFilters, hstage⟩

theorem Sound.conditions_le_index (h : path.Sound filters) (hindex : path.index? = some index) :
    path.conditions.length ≤ index.keys.length := by
  rw [← keys_of_index? hindex]
  exact h.conditions_le

theorem Sound.ended (h : path.Sound filters) : path.ended.Sound filters := by
  have hindex := index?_ended path
  have hkeys : path.ended.keys = path.keys := by
    unfold keys
    rw [hindex]
  unfold Path.ended at hindex hkeys ⊢
  split
  · exact h
  · next hlive =>
    rw [if_neg hlive] at hindex hkeys
    refine ⟨h.equalityCount_le, h.prefixCount_le, ?_, ?_, ?_, ?_⟩
    · rw [hkeys]
      exact h.conditions_le
    · rw [hindex]
      exact fun hnone ↦ (h.bare hnone).moved (endedMode path.mode) path.estimates (by decide)
    · simp
    · simp

theorem Sound.step (hstep : Step path later) (h : path.Sound filters) : later.Sound filters := by
  cases hstep with
  | stay => exact h
  | hinted =>
    refine ⟨h.equalityCount_le, h.prefixCount_le, h.conditions_le, ?_, h.estimated,
      h.unestimated⟩
    intro hnone
    have hbare := h.bare hnone
    exact ⟨hbare.conditions, hbare.equalityCount, hbare.prefixCount, hbare.indexFilters,
      hbare.tableFilters, hbare.stage⟩
  | bound hindex hstage hequalities hprefixCount hconditions =>
    have hestimates : path.estimates = none := h.unestimated (.inl hstage)
    exact sound_of_index? hindex hequalities hprefixCount hconditions (.inl rfl) hestimates
  | skipped hindex hmove =>
    have hestimates := h.estimates_eq_none (Nat.lt_succ_of_lt (Stage.rank_lt_of_canMove hmove))
    exact sound_of_index? hindex h.equalityCount_le h.prefixCount_le
      (h.conditions_le_index hindex) (.inr rfl) hestimates
  | @extended index compatible hindex hmove hconditions hprefixCount =>
    have hestimates := h.estimates_eq_none (Nat.lt_succ_of_lt (Stage.rank_lt_of_canMove hmove))
    have hbound := Seek.length_extend_access_le compatible index.keys path.tableFilters
      path.prefixCount
    refine sound_of_index? hindex h.equalityCount_le ?_ ?_ (.inr rfl) hestimates
    · simp only [extendedBy, List.length_append]
      omega
    · simp only [extendedBy, List.length_append]
      omega
  | separated hindex hstage =>
    have hestimates : path.estimates = none := h.unestimated (.inr hstage)
    exact sound_of_index? hindex h.equalityCount_le h.prefixCount_le
      (h.conditions_le_index hindex) hstage hestimates
  | estimated hcheck hmove =>
    refine ⟨h.equalityCount_le, h.prefixCount_le, h.conditions_le, ?_, fun _ ↦ rfl, ?_⟩
    · exact fun hnone ↦ (h.bare hnone).moved path.mode _ (by decide)
    · simp
  | won hstage hcounted =>
    refine ⟨h.equalityCount_le, h.prefixCount_le, h.conditions_le, ?_, ?_, ?_⟩
    · exact fun hnone ↦ (h.bare hnone).moved path.mode path.estimates (by decide)
    · exact fun _ ↦ h.estimated (.inl hstage)
    · simp [Candidates.winner]
  | ended => exact h.ended

/-! ## Runs -/

theorem Reachable.sound (h : Reachable filters path) : path.Sound filters := by
  induction h with
  | table primaryKey filters => exact sound_create _ filters
  | index index filters => exact sound_create _ filters
  | union built hpartials h =>
    obtain ⟨branches, -, -, rfl⟩ := eq_create_of_union h
    exact sound_create _ _
  | after _ action ih => exact ih.step (step_after _ action)

theorem Reachable.consistent (h : Reachable filters path) : path.Consistent filters where
  toSound := h.sound
  branches_ne := by
    intro hunion hnone
    obtain ⟨settings, parts, hmade, -⟩ := h.madeOf hunion
    have hlength := congrArg List.length (hmade.hasParts.map_branches index?_ended)
    rw [hnone, List.map_nil, List.length_map] at hlength
    exact hmade.unitable.nonempty (List.length_eq_zero_iff.mp hlength.symm)
  branches_final := by
    intro hstage branch hbranch
    obtain ⟨settings, parts, hmade, -⟩ := h.madeOf (isUnion_of_mem_branches hbranch)
    have hmem : branch.toPath ∈ path.branches.map Branch.toPath := List.mem_map_of_mem hbranch
    rw [hmade.hasParts.branches, if_pos hstage] at hmem
    obtain ⟨part, -, hended⟩ := List.mem_map.mp hmem
    have hfinal : branch.toPath.stage.isFinal = true := hended ▸ part.isFinal_ended
    exact hfinal

/-- A branch is a path that could have been built and run without its union. -/
theorem Reachable.branch (h : Reachable filters path) {branch : Branch}
    (hbranch : branch ∈ path.branches) : ∃ built, Reachable built branch.toPath := by
  obtain ⟨settings, parts, hmade, hparts⟩ := h.madeOf (isUnion_of_mem_branches hbranch)
  obtain ⟨part, hpart, hsame | hended⟩ := hmade.hasParts.mem_cases hbranch
  · rw [hsame]
    exact hparts part hpart
  · obtain ⟨built, hreach⟩ := hparts part hpart
    obtain ⟨discard, hdiscard⟩ := exists_after_eq_ended part
    rw [hended, ← hdiscard]
    exact ⟨built, hreach.after discard⟩

/-- Every path that can be built and run is consistent with the filters it was built from.  The
branches of a union are the paths that it was made of, of which none is a union, and which have
ended if the union is discarded.  They are paths that can be built and run as well. -/
theorem representation (h : Reachable filters path) :
    path.Consistent filters ∧
      (path.isUnion = true → ∃ settings parts, path.MadeOf settings parts filters ∧
        path.HasParts parts) ∧
      ∀ branch ∈ path.branches,
        ∃ built, Reachable built branch.toPath ∧ branch.toPath.Consistent built := by
  refine ⟨h.consistent, ?_, ?_⟩
  · intro hunion
    obtain ⟨settings, parts, hmade, -⟩ := h.madeOf hunion
    exact ⟨settings, parts, hmade, hmade.hasParts⟩
  · intro branch hbranch
    obtain ⟨built, hreach⟩ := h.branch hbranch
    exact ⟨built, hreach, hreach.consistent⟩

/-- A whole column and ten characters of another one. -/
def partialIndex : Index where
  id := 1
  name := "ab"
  keys := [⟨⟨1, "a", .plain .int⟩, none⟩, ⟨⟨2, "b", .plain .blob⟩, some 10⟩]
  unique := false
  handle := none
  wellFormed := ⟨by decide, by decide, by decide⟩

/-- An equality for each of the two columns. -/
def partialFilters : List Expr :=
  [.call .eq [.correlated ⟨9, "x", .plain .blob⟩, .column ⟨2, "b", .plain .blob⟩] .binary,
    .call .eq [.column ⟨1, "a", .plain .int⟩, .constant .null (.plain .int)] .binary]

/-- A path with its first key bound and a filter left for the second one. -/
def prefixedRead : Path :=
  (Path.index partialIndex partialFilters).after (.bindPrefix 1 1 (partialFilters.drop 1))

/-- That path with a part of the second key bound, its filters separated and its rows estimated. -/
def estimatedRead : Path :=
  prefixedRead.afterAll [.extendSeek .exact, .separateFilters,
    .setEstimates ⟨.zero, .zero, none⟩ .standard]

/-- Another read of the index, which was estimated at once and has been selected. -/
def wonRead : Path :=
  (Path.index partialIndex []).afterAll [.setEstimates ⟨.zero, .zero, none⟩ .standard,
    .compete [] [] none 0]

/-- The union of the two reads, with a filter of its own. -/
def unitedReads : Path :=
  .create (.union ([estimatedRead, wonRead].filterMap toBranch?) true)
    [.constant (.int 1) (.plain .int)]

/-- The union after its rows were estimated and another path was selected in its place. -/
def discardedUnion : Path :=
  let rival : Path := (Path.table none []).after (.setEstimates ⟨.zero, .zero, none⟩ .standard)
  unitedReads.afterAll [.setEstimates ⟨.zero, .zero, none⟩ .standard, .compete [rival] [] none 0]

theorem representation_discardedUnion :
    Reachable unitedReads.tableFilters discardedUnion ∧
      discardedUnion.Consistent unitedReads.tableFilters ∧
      (discardedUnion.isUnion = true → ∃ settings parts,
        discardedUnion.MadeOf settings parts unitedReads.tableFilters ∧
          discardedUnion.HasParts parts) ∧
      ∀ branch ∈ discardedUnion.branches,
        ∃ built, Reachable built branch.toPath ∧ branch.toPath.Consistent built := by
  let built (part : Path) : List Expr := if part.stage = .selected then [] else partialFilters
  have hunited : (union .standard [estimatedRead, wonRead] true unitedReads.tableFilters).result =
      .ok unitedReads := rfl
  have hparts : ∀ part ∈ [estimatedRead, wonRead], Reachable (built part) part := by
    intro part hpart
    rcases List.mem_pair.mp hpart with rfl | rfl
    · exact ((Reachable.index partialIndex partialFilters).after _).afterAll _
    · exact (Reachable.index partialIndex []).afterAll _
  have hreach : Reachable unitedReads.tableFilters discardedUnion :=
    (Reachable.union built hparts hunited).afterAll _
  exact ⟨hreach, representation hreach⟩

/-- The branch that had been selected before stays so when the union is discarded. -/
example : discardedUnion.branches.map (fun branch ↦ (branch.stage, branch.conditions.length)) =
    [(.discarded, 2), (.selected, 0)] := by
  decide

end Path

end IndexAccess
