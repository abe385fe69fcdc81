import IndexAccess.Proofs.Lifecycle.Runs
import IndexAccess.Proofs.Seek.Extension

/-!
# No filter is lost

A path over an index starts with all its filters checked on the table row.  From there a filter may
become a condition of the seek, or be checked on the index entry; the filters left, those on the
entry and those that the seek settles are always the filters at the start, in another order.  A
filter bound to a key that keeps only a part of its column settles nothing, so it has to be checked
as well, and it is.

The argument keeps account of the bindings made so far beside the path.  A seek is extended at most
once, so a filter that a part of a column has been bound by cannot be settled later.
-/

namespace IndexAccess.Path

open Seek

open scoped List

/-! ## Bindings of a run -/

/-- The keys that an action binds by extending the seek, each with its condition: the conditions
appended, at the keys that stand after those bound before. -/
def boundBy (path : Path) : Action → List (KeyColumn × Expr)
  | .extendSeek compatible =>
    let later := path.after (.extendSeek compatible)
    (path.keys.drop path.conditions.length).zip (later.conditions.drop path.conditions.length)
  | _ => []

def seekBindings (path : Path) : List Action → List (KeyColumn × Expr)
  | [] => []
  | action :: actions => path.boundBy action ++ (path.after action).seekBindings actions

theorem drop_conditions_extendedBy (path : Path) (extension : Extension) :
    (path.extendedBy extension).conditions.drop path.conditions.length = extension.access :=
  List.drop_left

theorem boundBy_extendSeek_cases (path : Path) (compatible : Compatibility) :
    let later := path.after (.extendSeek compatible)
    let bound := path.boundBy (.extendSeek compatible)
    (bound = [] ∧ (later = path ∨ later = { path with stage := .correlatedSplit })) ∨
      ∃ index, path.index? = some index ∧ path.stage.canMove .correlatedSplit = true ∧
        path.conditions.length = path.prefixCount ∧
        let extension := extend compatible index.keys path.tableFilters path.prefixCount
        later = path.extendedBy extension ∧
          bound = (index.keys.drop path.prefixCount).zip extension.access := by
  intro later bound
  have hbound : bound = (path.keys.drop path.conditions.length).zip
      (later.conditions.drop path.conditions.length) := rfl
  obtain ⟨error, hrefused⟩ | ⟨_, -, -, -, hskipped⟩ |
    ⟨index, hindex, hmove, hprefixCount, -, hextended⟩ := path.extendSeek_cases compatible
  · have hlater : later = path := congrArg Outcome.state hrefused
    rw [hbound, hlater, List.drop_length, List.zip_nil_right]
    exact .inl ⟨rfl, .inl rfl⟩
  · have hlater : later = { path with stage := .correlatedSplit } :=
      congrArg Outcome.state hskipped
    rw [hbound, hlater, List.drop_length, List.zip_nil_right]
    exact .inl ⟨rfl, .inr rfl⟩
  · have hlater : later = path.extendedBy
        (extend compatible index.keys path.tableFilters path.prefixCount) :=
      congrArg Outcome.state hextended
    refine .inr ⟨index, hindex, hmove, hprefixCount, hlater, ?_⟩
    rw [hbound, hlater, drop_conditions_extendedBy, keys_of_index? hindex, hprefixCount]

/-- The account of the filters of a path over an index, whose seek was extended by `bindings`. -/
structure Conserved (index : Index) (filters : List Expr) (path : Path)
    (bindings : List (KeyColumn × Expr)) : Prop where
  index_eq : path.index? = some index
  appended : ∃ recorded, path.conditions = recorded ++ bindings.map Prod.snd ∧
    bindings.map Prod.fst <+: index.keys.drop recorded.length
  perm : filters.Perm (path.tableFilters ++ path.indexFilters ++ settledBy bindings)
  table_sublist : path.tableFilters.Sublist filters
  index_sublist : path.indexFilters.Sublist filters
  separated : path.indexFilters = [] ∨ ∀ filter ∈ path.tableFilters, index.answers filter = false
  standing : ∀ key condition, (key, condition) ∈ bindings → key.isWhole = false →
    condition ∈ path.tableFilters ∨ condition ∈ path.indexFilters
  unextended : path.stage.canMove .correlatedSplit = true → bindings = []

variable {index : Index} {filters : List Expr} {path later : Path}
  {bindings : List (KeyColumn × Expr)}

theorem conserved_index (index : Index) (filters : List Expr) :
    Conserved index filters (.index index filters) [] where
  index_eq := rfl
  appended := ⟨[], rfl, List.nil_prefix⟩
  perm := by simp [Path.index, Access.create, settledBy]
  table_sublist := List.Sublist.refl _
  index_sublist := List.nil_sublist _
  separated := .inl rfl
  standing := fun _ _ hmem ↦ nomatch hmem
  unextended := fun _ ↦ rfl

/-! ## Single steps -/

/-- Nothing is to be shown where the filters stay and the stage does not go back, unless conditions
are recorded; this happens before the seek is extended. -/
theorem Conserved.of_same (h : Conserved index filters path bindings)
    (hindex : later.index? = path.index?)
    (hconditions : later.conditions = path.conditions ∨
      path.stage.canMove .correlatedSplit = true)
    (htable : later.tableFilters = path.tableFilters)
    (hanswered : later.indexFilters = path.indexFilters)
    (hstage : later.stage.canMove .correlatedSplit = true →
      path.stage.canMove .correlatedSplit = true) :
    Conserved index filters later bindings := by
  refine ⟨hindex.trans h.index_eq, ?_, ?_, ?_, ?_, ?_, ?_,
    fun hmove ↦ h.unextended (hstage hmove)⟩
  · rcases hconditions with hsame | hmove
    · rw [hsame]
      exact h.appended
    · rw [h.unextended hmove]
      exact ⟨later.conditions, (List.append_nil _).symm, List.nil_prefix⟩
  · rw [htable, hanswered]
    exact h.perm
  · rw [htable]
    exact h.table_sublist
  · rw [hanswered]
    exact h.index_sublist
  · rw [htable, hanswered]
    exact h.separated
  · rw [htable, hanswered]
    exact h.standing

/-- Every key bound by an extension has its condition, and every condition its key. -/
theorem conditions_extendedBy (compatible : Compatibility) {keys : List KeyColumn}
    (hconditions : path.conditions.length = path.prefixCount) :
    let extension := extend compatible keys path.tableFilters path.prefixCount
    let added := (keys.drop path.prefixCount).zip extension.access
    (path.extendedBy extension).conditions = path.conditions ++ added.map Prod.snd ∧
      added.map Prod.fst <+: keys.drop path.conditions.length := by
  intro extension added
  constructor
  · have haccess : extension.access.length ≤ (keys.drop path.prefixCount).length := by
      rw [List.length_drop]
      exact length_extend_access_le compatible keys path.tableFilters path.prefixCount
    exact congrArg (path.conditions ++ ·) (List.map_snd_zip haccess).symm
  · let w := walkFrom compatible keys path.tableFilters path.prefixCount
    have hkeys : added.map Prod.fst =
        (keys.drop path.prefixCount).take extension.access.length := by
      calc added.map Prod.fst
        _ = (w.bindings.map fun binding ↦ (binding.key, binding.filter.1)).map Prod.fst :=
          congrArg (List.map Prod.fst) (zip_drop_extend_access ..)
        _ = w.bindings.map Binding.key := List.map_map
        _ = _ := map_key_walkFrom_bindings ..
    rw [hkeys, hconditions]
    exact List.take_prefix _ _

theorem Conserved.extended (h : Conserved index filters path bindings)
    (hmove : path.stage.canMove .correlatedSplit = true)
    (hconditions : path.conditions.length = path.prefixCount) (compatible : Compatibility) :
    let extension := extend compatible index.keys path.tableFilters path.prefixCount
    Conserved index filters (path.extendedBy extension)
      (bindings ++ (index.keys.drop path.prefixCount).zip extension.access) := by
  intro extension
  let added := (index.keys.drop path.prefixCount).zip extension.access
  have hperm : path.tableFilters.Perm (extension.residual ++ settledBy added) :=
    perm_extend_residual_settledBy compatible index.keys path.tableFilters path.prefixCount
  have hsublist : extension.residual.Sublist path.tableFilters :=
    extend_residual_sublist compatible index.keys path.tableFilters path.prefixCount
  -- The seek is extended for the first time, so no condition of an earlier binding can be lost.
  obtain rfl := h.unextended hmove
  refine ⟨h.index_eq, ⟨path.conditions, conditions_extendedBy compatible hconditions⟩, ?_,
    hsublist.trans h.table_sublist, h.index_sublist, ?_, ?_, ?_⟩
  · calc filters
      _ ~ path.tableFilters ++ path.indexFilters := by
        simpa only [settledBy, List.filter_nil, List.map_nil, List.append_nil] using h.perm
      _ ~ extension.residual ++ settledBy added ++ path.indexFilters := hperm.append_right _
      _ = extension.residual ++ (settledBy added ++ path.indexFilters) := List.append_assoc ..
      _ ~ extension.residual ++ (path.indexFilters ++ settledBy added) :=
        List.perm_append_comm.append_left _
      _ = extension.residual ++ path.indexFilters ++ settledBy ([] ++ added) :=
        (List.append_assoc ..).symm
  · exact h.separated.imp_right fun hnone filter hmem ↦ hnone filter (hsublist.subset hmem)
  · intro key condition hmem hpartial
    left
    exact mem_extend_residual_of_partial compatible index.keys path.tableFilters path.prefixCount
      index.wellFormed.distinct hmem hpartial
  · intro hagain
    cases hagain

/-- Separating the filters again moves none: those left on the table row are not answered. -/
theorem Conserved.sublist_separatedBy (h : Conserved index filters path bindings) :
    (path.separatedBy index).indexFilters.Sublist filters := by
  rcases h.separated with hnone | hnone
  · unfold Path.separatedBy
    rw [hnone, List.nil_append]
    exact List.filter_sublist.trans h.table_sublist
  · rw [separatedBy_of_unanswered hnone]
    exact h.index_sublist

theorem Conserved.separatedBy (h : Conserved index filters path bindings) :
    Conserved index filters (path.separatedBy index) bindings := by
  let answered := path.tableFilters.filter index.answers
  let others := path.tableFilters.filter fun filter ↦ !index.answers filter
  have hsplit : (answered ++ others).Perm path.tableFilters :=
    List.filter_append_perm index.answers path.tableFilters
  have hunanswered : ∀ filter ∈ others, index.answers filter = false := by
    intro filter hmem
    exact (Bool.not_eq_true' _).mp (List.mem_filter.mp hmem).2
  have hstays : ∀ condition, condition ∈ path.tableFilters →
      condition ∈ others ∨ condition ∈ path.indexFilters ++ answered := by
    intro condition hmem
    rcases List.mem_append.mp (hsplit.mem_iff.mpr hmem) with hanswered | hother
    · exact .inr (List.mem_append_right _ hanswered)
    · exact .inl hother
  refine ⟨h.index_eq, h.appended, ?_, List.filter_sublist.trans h.table_sublist,
    h.sublist_separatedBy, .inr hunanswered, ?_, h.unextended⟩
  · apply h.perm.trans
    apply List.Perm.append_right
    calc path.tableFilters ++ path.indexFilters
      _ ~ path.indexFilters ++ path.tableFilters := List.perm_append_comm
      _ ~ path.indexFilters ++ (answered ++ others) := hsplit.symm.append_left _
      _ = path.indexFilters ++ answered ++ others := (List.append_assoc ..).symm
      _ ~ others ++ (path.indexFilters ++ answered) := List.perm_append_comm
  · intro key condition hmem hpartial
    rcases h.standing key condition hmem hpartial with htable | hindex
    · exact hstays condition htable
    · exact .inr (List.mem_append_left _ hindex)

theorem Conserved.afterExtendSeek (h : Conserved index filters path bindings)
    (compatible : Compatibility) :
    Conserved index filters (path.after (.extendSeek compatible))
      (bindings ++ path.boundBy (.extendSeek compatible)) := by
  obtain ⟨hbound, hlater | hlater⟩ | ⟨other, hother, hmove, hconditions, hlater, hbound⟩ :=
    path.boundBy_extendSeek_cases compatible
  · rw [hbound, hlater, List.append_nil]
    exact h
  · rw [hbound, hlater, List.append_nil]
    refine h.of_same rfl (.inl rfl) rfl rfl ?_
    intro hmove
    cases hmove
  · obtain rfl : index = other := Option.some.inj (h.index_eq.symm.trans hother)
    rw [hbound, hlater]
    exact h.extended hmove hconditions compatible

/-- An action moves filters as the bindings that it makes say. -/
theorem Conserved.after (h : Conserved index filters path bindings) (action : Action) :
    Conserved index filters (path.after action) (bindings ++ path.boundBy action) := by
  have hunbound : path.boundBy action = [] → Conserved index filters (path.after action) bindings →
      Conserved index filters (path.after action) (bindings ++ path.boundBy action) := by
    intro hnone hlater
    rw [hnone, List.append_nil]
    exact hlater
  cases action with
  | extendSeek compatible => exact h.afterExtendSeek compatible
  | store => exact hunbound rfl (h.of_same rfl (.inl rfl) rfl rfl id)
  | force => exact hunbound rfl (h.of_same rfl (.inl rfl) rfl rfl id)
  | readRemotely => exact hunbound rfl (h.of_same rfl (.inl rfl) rfl rfl id)
  | bindPrefix equalities prefixCount conditions =>
    apply hunbound rfl
    simp only [Path.after]
    obtain ⟨error, hrefused⟩ | ⟨_, -, hstage, -, -, -, hbound⟩ :=
      path.bindPrefix_cases equalities prefixCount conditions
    · rw [hrefused]
      exact h
    · have hmove : path.stage.canMove .correlatedSplit = true := by
        rw [hstage]
        rfl
      rw [hbound]
      exact h.of_same rfl (.inr hmove) rfl rfl fun _ ↦ hmove
  | separateFilters =>
    apply hunbound rfl
    simp only [Path.after]
    obtain ⟨error, hrefused⟩ | ⟨other, hother, -, hseparated⟩ := path.separateFilters_cases
    · rw [hrefused]
      exact h
    · obtain rfl : index = other := Option.some.inj (h.index_eq.symm.trans hother)
      rw [hseparated]
      exact h.separatedBy
  | setEstimates estimates settings =>
    apply hunbound rfl
    simp only [Path.after]
    obtain ⟨error, -, hrejected⟩ | ⟨error, hrefused⟩ | ⟨-, -, hestimated⟩ :=
      path.setEstimates_cases estimates settings
    · rw [hrejected]
      exact h
    · rw [hrefused]
      exact h
    · rw [hestimated]
      refine h.of_same rfl (.inl rfl) rfl rfl ?_
      intro hmove
      cases hmove
  | compete before rest choice position =>
    apply hunbound rfl
    obtain hsame | ⟨-, -, hwon⟩ | hended := path.after_compete_cases before rest choice position
    · rw [hsame]
      exact h
    · rw [hwon]
      refine h.of_same rfl (.inl rfl) rfl rfl ?_
      intro hmove
      cases hmove
    · rw [hended]
      refine h.of_same (index?_ended path) (.inl (conditions_ended path)) (tableFilters_ended path)
        (indexFilters_ended path) ?_
      intro hmove
      have hlive := Stage.isFinal_eq_false_of_canMove hmove
      rw [isFinal_ended] at hlive
      cases hlive

/-! ## Runs -/

theorem Conserved.afterAll (h : Conserved index filters path bindings) (actions : List Action) :
    Conserved index filters (path.afterAll actions) (bindings ++ path.seekBindings actions) := by
  unfold Path.afterAll
  induction actions generalizing path bindings with
  | nil =>
    unfold seekBindings
    rw [List.append_nil]
    exact h
  | cons action actions ih =>
    unfold seekBindings
    rw [← List.append_assoc]
    exact ih (h.after action)

/-- The filters of a path over an index are, after any run, the filters left on the table row, those
on the index entry and the conditions that the seek settles, in some order.  The first two are in
the order of the start, and a condition bound to a part of a column is among them.  So these three
lists ask together for what the filters ask for.  The conditions bound by extending the seek are the
last conditions of the path, at the keys that come after the ones recorded before. -/
theorem filters_conserved (index : Index) (filters : List Expr) (actions : List Action) :
    let path := (Path.index index filters).afterAll actions
    let bindings := (Path.index index filters).seekBindings actions
    filters.Perm (path.tableFilters ++ path.indexFilters ++ settledBy bindings) ∧
      path.tableFilters.Sublist filters ∧ path.indexFilters.Sublist filters ∧
      (∀ key condition, (key, condition) ∈ bindings → key.isWhole = false →
        condition ∈ path.tableFilters ∨ condition ∈ path.indexFilters) ∧
      (∃ recorded, path.conditions = recorded ++ bindings.map Prod.snd ∧
        bindings.map Prod.fst <+: index.keys.drop recorded.length) ∧
      ∀ holds : Expr → Prop, (∀ filter ∈ filters, holds filter) ↔
        (∀ filter ∈ path.tableFilters, holds filter) ∧
          (∀ filter ∈ path.indexFilters, holds filter) ∧
            ∀ condition ∈ settledBy bindings, holds condition := by
  intro path bindings
  have h : Conserved index filters path bindings := (conserved_index index filters).afterAll actions
  refine ⟨h.perm, h.table_sublist, h.index_sublist, h.standing, h.appended, ?_⟩
  intro holds
  calc (∀ filter ∈ filters, holds filter)
    _ ↔ ∀ filter ∈ path.tableFilters ++ path.indexFilters ++ settledBy bindings,
          holds filter := forall_congr' fun filter ↦ imp_congr_left h.perm.mem_iff
    _ ↔ _ := by rw [List.forall_mem_append, List.forall_mem_append, and_assoc]

end IndexAccess.Path
