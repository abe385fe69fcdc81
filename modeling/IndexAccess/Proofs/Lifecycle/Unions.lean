import IndexAccess.Proofs.Lifecycle.EntryFilters

/-!
# What is asked of branches

A branch differs from its part in the stage alone, whatever happens to the union later, and the
filters of the union stay as they were given.  So what is asked of branches is decided when the
union is made.

Two things are asked there that the making does not ensure.  The branches are to be reads over an
index, but of the parts only unions are refused, so that a read of the table becomes a branch like
any other.  A filter of the union is not to be checked on a branch as well, but it is looked for
among the table filters of the parts only; one that a part has handed to its index filters before
is not found there.
-/

namespace IndexAccess.Path

variable {path later : Path} {settings : Settings} {parts : List Path} {filters : List Expr}

/-! ## The filters of a union -/

/-- Filters are taken and moved over an index only. -/
theorem Step.tableFilters_eq (hstep : Step path later) (hnone : path.index? = none) :
    later.tableFilters = path.tableFilters := by
  cases hstep with
  | extended hindex => exact absurd (hindex.symm.trans hnone) (Option.some_ne_none _)
  | separated hindex => exact absurd (hindex.symm.trans hnone) (Option.some_ne_none _)
  | ended => exact tableFilters_ended path
  | _ => rfl

theorem tableFilters_afterAll (hnone : path.index? = none) (actions : List Action) :
    (path.afterAll actions).tableFilters = path.tableFilters := by
  unfold afterAll
  induction actions generalizing path with
  | nil => rfl
  | cons action actions ih =>
    have hstep : Step path (path.after action) := step_after path action
    calc (actions.foldl after (path.after action)).tableFilters
      _ = (path.after action).tableFilters := ih (hstep.index?_eq.trans hnone)
      _ = path.tableFilters := hstep.tableFilters_eq hnone

theorem MadeOf.tableFilters_eq (h : path.MadeOf settings parts filters) :
    path.tableFilters = filters := by
  obtain ⟨disjunctive, united, actions, hunited, rfl⟩ := h
  obtain ⟨branches, -, -, rfl⟩ := eq_create_of_union hunited
  exact tableFilters_afterAll rfl actions

/-! ## Reads over an index -/

/-- A path that is no union is a read of the table or over an index. -/
theorem isTable_eq_false_iff (h : path.isUnion = false) :
    path.isTable = false ↔ path.index?.isSome = true := by
  have hnone : path.index? = none ↔ path.isTable = true := by
    rw [index?_eq_none_iff, h]
    exact or_iff_left Bool.false_ne_true
  rw [Option.isSome_iff_ne_none, Ne, hnone, Bool.not_eq_true]

theorem exists_mode_eq_index_iff (branch : Branch) :
    (∃ index, branch.mode = .index index) ↔ branch.toPath.index?.isSome = true := by
  obtain ⟨single, _⟩ := branch
  cases single <;> simp [Branch.toPath, Access.withMode, index?]

/-- Every branch is a read over an index exactly if no part was a read of the table; and whatever a
union was made of, a read of the table could have been among the parts. -/
theorem branches_of_union (h : Reachable filters path) (hunion : path.isUnion = true) :
    ∃ settings parts, path.MadeOf settings parts filters ∧
      (∀ part ∈ parts, part.isUnion = false ∧ ∃ given, Reachable given part) ∧
      path.branches.map (fun branch ↦ branch.toPath.index?) = parts.map index? ∧
      ((∀ branch ∈ path.branches, ∃ index, branch.mode = .index index) ↔
        ∀ part ∈ parts, part.isTable = false) ∧
      ∀ primaryKey disjunctive, ∃ united,
        (union settings (parts ++ [table primaryKey []]) disjunctive filters).result =
          .ok united := by
  obtain ⟨settings, parts, hmade, hparts⟩ := h.madeOf hunion
  have hunitable : Unitable settings parts filters := hmade.unitable
  refine ⟨settings, parts, hmade, ?_, hmade.hasParts.map_branches index?_ended, ?_, ?_⟩
  · exact fun part hpart ↦ ⟨hunitable.single part hpart, hparts part hpart⟩
  · calc (∀ branch ∈ path.branches, ∃ index, branch.mode = .index index)
      _ ↔ ∀ branch ∈ path.branches, branch.toPath.index?.isSome = true :=
        forall₂_congr fun branch _ ↦ exists_mode_eq_index_iff branch
      _ ↔ ∀ part ∈ parts, part.index?.isSome = true :=
        hmade.hasParts.forall_branches (fun part ↦ part.index?.isSome = true) fun part ↦ by
          rw [index?_ended]
      _ ↔ ∀ part ∈ parts, part.isTable = false :=
        forall₂_congr fun part hpart ↦ (isTable_eq_false_iff (hunitable.single part hpart)).symm
  · intro primaryKey disjunctive
    exact (hunitable.append_table primaryKey).union disjunctive

/-- A read of the table united with one over an index. -/
def mixedParts : List Path := [table none [], handledRead]

def mixedUnion : Path := .create (.union (mixedParts.filterMap toBranch?) true) []

theorem reachable_mixedUnion : Reachable [] mixedUnion := by
  let built (part : Path) : List Expr := if part.isTable then [] else entryFilters
  have hunited : (union .standard mixedParts true []).result = .ok mixedUnion := rfl
  refine .union built ?_ hunited
  intro part hpart
  rcases List.mem_pair.mp hpart with rfl | rfl
  · exact .table none []
  · exact ((Reachable.index handledIndex entryFilters).after _).after _

theorem branches_of_union_mixedUnion :
    Reachable [] mixedUnion ∧ mixedUnion.isUnion = true ∧
      ∃ settings parts, mixedUnion.MadeOf settings parts [] ∧
        (∀ part ∈ parts, part.isUnion = false ∧ ∃ given, Reachable given part) ∧
        mixedUnion.branches.map (fun branch ↦ branch.toPath.index?) = parts.map index? ∧
        ((∀ branch ∈ mixedUnion.branches, ∃ index, branch.mode = .index index) ↔
          ∀ part ∈ parts, part.isTable = false) ∧
        ∀ primaryKey disjunctive, ∃ united,
          (union settings (parts ++ [table primaryKey []]) disjunctive []).result = .ok united :=
  ⟨reachable_mixedUnion, rfl, branches_of_union reachable_mixedUnion rfl⟩

/-- A branch that reads the table. -/
theorem mixedUnion_not_over_indexes :
    Reachable [] mixedUnion ∧ mixedUnion.isUnion = true ∧
      ¬∀ branch ∈ mixedUnion.branches, ∃ index, branch.mode = .index index := by
  refine ⟨reachable_mixedUnion, rfl, ?_⟩
  intro hall
  obtain ⟨index, hindex⟩ := hall _ List.mem_cons_self
  cases hindex

/-! ## Filters of the union and of its branches -/

/-- No filter of the union is left to be checked on a branch as well. -/
def ResidualsApart (path : Path) : Prop :=
  ∀ filter ∈ path.tableFilters, ∀ branch ∈ path.branches,
    ∀ residual ∈ branch.tableFilters ++ branch.indexFilters, filter.equal residual = false

theorem MadeOf.tableFilters_apart (h : path.MadeOf settings parts filters) :
    ∀ filter ∈ path.tableFilters, ∀ branch ∈ path.branches, ∀ other ∈ branch.tableFilters,
      filter.equal other = false := by
  rw [h.tableFilters_eq]
  intro filter hfilter
  have hbranches := h.hasParts.forall_branches
    (fun part ↦ ∀ other ∈ part.tableFilters, filter.equal other = false)
    fun part ↦ by rw [tableFilters_ended]
  exact hbranches.mpr (h.unitable.fresh filter hfilter)

theorem MadeOf.residualsApart_iff (h : path.MadeOf settings parts filters) :
    path.ResidualsApart ↔ ∀ filter ∈ filters, ∀ part ∈ parts, ∀ other ∈ part.indexFilters,
      filter.equal other = false := by
  have htable := h.tableFilters_apart
  unfold ResidualsApart
  rw [h.tableFilters_eq] at htable ⊢
  refine forall₂_congr fun filter hfilter ↦ ?_
  calc (∀ branch ∈ path.branches, ∀ residual ∈ branch.tableFilters ++ branch.indexFilters,
      filter.equal residual = false)
    _ ↔ ∀ branch ∈ path.branches, ∀ other ∈ branch.indexFilters, filter.equal other = false := by
      refine forall₂_congr fun branch hbranch ↦ ?_
      rw [List.forall_mem_append]
      exact and_iff_right (htable filter hfilter branch hbranch)
    _ ↔ ∀ part ∈ parts, ∀ other ∈ part.indexFilters, filter.equal other = false :=
      h.hasParts.forall_branches (fun part ↦ ∀ other ∈ part.indexFilters, filter.equal other = false)
        fun part ↦ by rw [indexFilters_ended]

/-- The filters of a union are none of the table filters of its branches, at any time.  They are
none of the index filters either exactly if that was so of the parts. -/
theorem residuals_of_union (h : Reachable filters path) (hunion : path.isUnion = true) :
    ∃ settings parts, path.MadeOf settings parts filters ∧ ∀ actions,
      let later := path.afterAll actions
      later.tableFilters = filters ∧
        (∀ filter ∈ later.tableFilters, ∀ branch ∈ later.branches, ∀ other ∈ branch.tableFilters,
          filter.equal other = false) ∧
        (later.ResidualsApart ↔ ∀ filter ∈ filters, ∀ part ∈ parts, ∀ other ∈ part.indexFilters,
          filter.equal other = false) := by
  obtain ⟨settings, parts, hmade, -⟩ := h.madeOf hunion
  refine ⟨settings, parts, hmade, ?_⟩
  intro actions later
  have hlater : later.MadeOf settings parts filters := hmade.afterAll actions
  exact ⟨hlater.tableFilters_eq, hlater.tableFilters_apart, hlater.residualsApart_iff⟩

/-- The filters that a read over an index has handed to its index filters, and the union of that
read with these very filters. -/
def sharedFilters : List Expr := handledRead.indexFilters

def sharedUnion : Path := .create (.union ([handledRead].filterMap toBranch?) false) sharedFilters

theorem reachable_sharedUnion : Reachable sharedFilters sharedUnion := by
  have hunited : (union .standard [handledRead] false sharedFilters).result = .ok sharedUnion := rfl
  refine .union (fun _ ↦ entryFilters) ?_ hunited
  intro part hpart
  rw [List.mem_singleton.mp hpart]
  exact ((Reachable.index handledIndex entryFilters).after _).after _

theorem residuals_of_union_sharedUnion :
    Reachable sharedFilters sharedUnion ∧ sharedUnion.isUnion = true ∧
      ∃ settings parts, sharedUnion.MadeOf settings parts sharedFilters ∧ ∀ actions,
        let later := sharedUnion.afterAll actions
        later.tableFilters = sharedFilters ∧
          (∀ filter ∈ later.tableFilters, ∀ branch ∈ later.branches,
            ∀ other ∈ branch.tableFilters, filter.equal other = false) ∧
          (later.ResidualsApart ↔ ∀ filter ∈ sharedFilters, ∀ part ∈ parts,
            ∀ other ∈ part.indexFilters, filter.equal other = false) :=
  ⟨reachable_sharedUnion, rfl, residuals_of_union reachable_sharedUnion rfl⟩

theorem sharedUnion_not_apart :
    Reachable sharedFilters sharedUnion ∧ sharedUnion.isUnion = true ∧
      ¬sharedUnion.ResidualsApart := by
  refine ⟨reachable_sharedUnion, rfl, ?_⟩
  intro hapart
  let shared : Expr := sharedFilters.head (List.cons_ne_nil _ _)
  have hindexed : shared ∈ handledRead.indexFilters := List.mem_cons_self
  have hequal : shared.equal shared = false :=
    hapart shared List.mem_cons_self _ List.mem_cons_self shared
      (List.mem_append_right _ hindexed)
  cases hequal

end IndexAccess.Path
