import IndexAccess.Proofs.Lifecycle.Runs

/-!
# The parts of a union

A union is made of paths that are no unions, and it keeps them as its branches.  No operation on the
union reaches a branch but its end: with a union that is discarded, each branch that had not ended
is discarded as well.  So the parts and the stage of a union tell at any time what its branches are.
-/

namespace IndexAccess

theorem Branch.toPath_ended (branch : Branch) : branch.ended.toPath = branch.toPath.ended := by
  unfold Branch.ended Path.ended
  cases hfinal : branch.stage.isFinal with
  | true => simp [Branch.toPath, Access.withMode, hfinal]
  | false => simp [Branch.toPath, Access.withMode, hfinal, Path.endedMode]

namespace Path

variable {path later : Path} {settings : Settings} {parts : List Path} {filters : List Expr}

/-! ## Making a union -/

/-- The conditions under which some paths are united. -/
structure Unitable (settings : Settings) (parts : List Path) (filters : List Expr) : Prop where
  permitted : settings.unions = true
  nonempty : parts ≠ []
  single : ∀ part ∈ parts, part.isUnion = false
  fresh : ∀ filter ∈ filters, ∀ part ∈ parts, ∀ other ∈ part.tableFilters,
    filter.equal other = false

theorem unitable_of_union {disjunctive : Bool} {united : Path}
    (h : (union settings parts disjunctive filters).result = .ok united) :
    Unitable settings parts filters := by
  obtain ⟨error, hrefused⟩ | ⟨branches, hne, rfl, hfresh, -⟩ :=
    union_cases settings parts disjunctive filters
  · rw [hrefused] at h
    cases h
  · have hpermitted : settings.unions = true := by
      by_contra hforbidden
      rw [union, if_pos (by simpa using hforbidden)] at h
      cases h
    refine ⟨hpermitted, ?_, ?_, ?_⟩
    · exact fun hempty ↦ hne (List.map_eq_nil_iff.mp hempty)
    · intro part hpart
      obtain ⟨branch, -, rfl⟩ := List.mem_map.mp hpart
      rfl
    · intro filter hfilter part hpart other hother
      obtain ⟨branch, hbranch, rfl⟩ := List.mem_map.mp hpart
      rw [filter.equal_comm]
      exact hfresh filter hfilter branch hbranch other hother

theorem Unitable.union (h : Unitable settings parts filters) (disjunctive : Bool) :
    ∃ united, (union settings parts disjunctive filters).result = .ok united := by
  have hsingle : parts.any isUnion = false := by simpa using h.single
  have hfresh : (filters.find? fun filter ↦
      parts.any fun path ↦ path.tableFilters.any fun other ↦ other.equal filter) = none := by
    rw [List.find?_eq_none]
    intro filter hfilter hstands
    obtain ⟨part, hpart, hfound⟩ := List.any_eq_true.mp hstands
    obtain ⟨other, hother, hequal⟩ := List.any_eq_true.mp hfound
    rw [other.equal_comm, h.fresh filter hfilter part hpart other hother] at hequal
    exact Bool.false_ne_true hequal
  unfold Path.union
  simp [h.permitted, h.nonempty, hsingle, hfresh]

/-- A read of the table without filters can join in every union. -/
theorem Unitable.append_table (h : Unitable settings parts filters) (primaryKey : Option Column) :
    Unitable settings (parts ++ [table primaryKey []]) filters where
  permitted := h.permitted
  nonempty := List.append_ne_nil_of_left_ne_nil h.nonempty _
  single := by
    intro part hpart
    rcases List.mem_append.mp hpart with hpart | hpart
    · exact h.single part hpart
    · rw [List.mem_singleton.mp hpart]
      rfl
  fresh := by
    intro filter hfilter part hpart other hother
    rcases List.mem_append.mp hpart with hpart | hpart
    · exact h.fresh filter hfilter part hpart other hother
    · rw [List.mem_singleton.mp hpart] at hother
      cases hother

/-! ## Parts and branches -/

/-- The branches of the path are `parts`, none of which is a union; they have ended if the path has
been discarded. -/
structure HasParts (path : Path) (parts : List Path) : Prop where
  single : ∀ part ∈ parts, part.isUnion = false
  branches : path.branches.map Branch.toPath =
    if path.stage = .discarded then parts.map Path.ended else parts

theorem HasParts.of_same (h : path.HasParts parts) (hbranches : later.branches = path.branches)
    (hstage : later.stage = .discarded ↔ path.stage = .discarded) : later.HasParts parts where
  single := h.single
  branches := by
    simp only [hbranches, hstage]
    exact h.branches

theorem HasParts.ended (h : path.HasParts parts) : path.ended.HasParts parts := by
  cases hfinal : path.stage.isFinal with
  | true =>
    have hsame : path.ended = path := if_pos hfinal
    rw [hsame]
    exact h
  | false =>
    have hlive : path.stage ≠ .discarded := by
      intro hstage
      rw [hstage] at hfinal
      cases hfinal
    have hparts : path.branches.map Branch.toPath = parts := h.branches.trans (if_neg hlive)
    refine ⟨h.single, ?_⟩
    calc path.ended.branches.map Branch.toPath
      _ = (path.branches.map Branch.toPath).map Path.ended := by
        rw [branches_ended hfinal, List.map_map, List.map_map]
        exact List.map_congr_left fun branch _ ↦ branch.toPath_ended
      _ = parts.map Path.ended := congrArg (List.map Path.ended) hparts
      _ = _ := by rw [ended_of_live hfinal, if_pos rfl]

theorem HasParts.step (hstep : Step path later) (h : path.HasParts parts) :
    later.HasParts parts := by
  have hlive {stage : Stage} (hmove : path.stage.canMove stage = true) :
      path.stage ≠ .discarded := by
    intro hstage
    rw [hstage] at hmove
    cases hmove
  cases hstep with
  | stay => exact h
  | hinted => exact h.of_same rfl Iff.rfl
  | bound _ hstage => exact h.of_same rfl (by simp [hstage])
  | skipped _ hmove => exact h.of_same rfl (by simp [hlive hmove])
  | extended _ hmove => exact h.of_same rfl (by simp [hlive hmove, extendedBy])
  | separated => exact h.of_same rfl Iff.rfl
  | estimated _ hmove => exact h.of_same rfl (by simp [hlive hmove])
  | won hstage => exact h.of_same rfl (by simp [hstage, Candidates.winner])
  | ended => exact h.ended

/-- What the end of a path does not touch is seen at the branches as it is at the parts. -/
theorem HasParts.map_branches {α : Type} (h : path.HasParts parts) {view : Path → α}
    (hview : ∀ part, view part.ended = view part) :
    path.branches.map (fun branch ↦ view branch.toPath) = parts.map view := by
  have hbranches : path.branches.map (fun branch ↦ view branch.toPath) =
      (path.branches.map Branch.toPath).map view := by
    rw [List.map_map]
    rfl
  rw [hbranches, h.branches]
  split
  · rw [List.map_map]
    exact List.map_congr_left fun part _ ↦ hview part
  · rfl

theorem HasParts.forall_branches (h : path.HasParts parts) (holds : Path → Prop)
    (hended : ∀ part, holds part.ended ↔ holds part) :
    (∀ branch ∈ path.branches, holds branch.toPath) ↔ ∀ part ∈ parts, holds part := by
  rw [← List.forall_mem_map (f := Branch.toPath) (P := holds), h.branches]
  split
  · rw [List.forall_mem_map]
    exact forall₂_congr fun part _ ↦ hended part
  · rfl

theorem HasParts.mem_cases (h : path.HasParts parts) {branch : Branch}
    (hbranch : branch ∈ path.branches) :
    ∃ part ∈ parts, branch.toPath = part ∨ branch.toPath = part.ended := by
  have hmem : branch.toPath ∈ path.branches.map Branch.toPath := List.mem_map_of_mem hbranch
  rw [h.branches] at hmem
  split at hmem
  · obtain ⟨part, hpart, hended⟩ := List.mem_map.mp hmem
    exact ⟨part, hpart, .inr hended.symm⟩
  · exact ⟨_, hmem, .inl rfl⟩

/-! ## Runs of a union -/

/-- The path was made as a union of `parts`, and has had a run since then. -/
def MadeOf (settings : Settings) (parts : List Path) (filters : List Expr) (path : Path) : Prop :=
  ∃ disjunctive united actions,
    (Path.union settings parts disjunctive filters).result = .ok united ∧
      path = united.afterAll actions

theorem isUnion_ended (path : Path) : path.ended.isUnion = path.isUnion := by
  obtain ⟨mode, _⟩ := path
  unfold ended
  split
  · rfl
  · cases mode <;> rfl

theorem Step.isUnion_eq (hstep : Step path later) : later.isUnion = path.isUnion := by
  cases hstep with
  | ended => exact isUnion_ended path
  | _ => rfl

theorem isUnion_of_mem_branches {branch : Branch} (h : branch ∈ path.branches) :
    path.isUnion = true := by
  obtain ⟨mode, _⟩ := path
  cases mode with
  | single => cases h
  | union => rfl

theorem MadeOf.afterAll (h : path.MadeOf settings parts filters) (more : List Action) :
    (path.afterAll more).MadeOf settings parts filters := by
  obtain ⟨disjunctive, united, actions, hunited, rfl⟩ := h
  exact ⟨disjunctive, united, actions ++ more, hunited, List.foldl_append.symm⟩

theorem Reachable.madeOf (h : Reachable filters path) (hunion : path.isUnion = true) :
    ∃ settings parts, path.MadeOf settings parts filters ∧
      ∀ part ∈ parts, ∃ given, Reachable given part := by
  induction h with
  | table => cases hunion
  | index => cases hunion
  | @union settings parts disjunctive filters united built hparts hunited =>
    refine ⟨settings, parts, ⟨disjunctive, united, [], hunited, rfl⟩, ?_⟩
    exact fun part hpart ↦ ⟨built part, hparts part hpart⟩
  | after _ action ih =>
    rw [(step_after _ action).isUnion_eq] at hunion
    obtain ⟨settings, parts, hmade, hparts⟩ := ih hunion
    exact ⟨settings, parts, hmade.afterAll [action], hparts⟩

theorem MadeOf.unitable (h : path.MadeOf settings parts filters) :
    Unitable settings parts filters := by
  obtain ⟨_, _, _, hunited, -⟩ := h
  exact unitable_of_union hunited

/-- At any time a union has the parts that it was made of. -/
theorem MadeOf.hasParts (h : path.MadeOf settings parts filters) : path.HasParts parts := by
  have hsingle := h.unitable.single
  obtain ⟨disjunctive, united, actions, hunited, rfl⟩ := h
  obtain ⟨branches, -, rfl, rfl⟩ := eq_create_of_union hunited
  refine List.foldlRecOn (motive := fun later ↦ HasParts later (branches.map Branch.toPath))
    actions after ⟨hsingle, rfl⟩ ?_
  intro path hparts action _
  exact hparts.step (step_after path action)

end Path

end IndexAccess
