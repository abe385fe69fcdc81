import IndexAccess.Proofs.Lifecycle.Coverage
import IndexAccess.Proofs.Seek.Reference

/-!
# Extending the seek of a path

A seek is extended over an index, and before the stage that the extension leads to.  Nothing else
is asked of a path that can be built and run: its prefix lies within its index, so that the one
refusal which speaks of the prefix cannot happen, nor can an extension be requested from beyond the
index.

The keys after the prefix are bound in their order, while the conditions are put behind those that
the path has.  The two agree since conditions that go past the prefix, with a range at their end,
are left alone; so the conditions end where the prefix ends, and every new one comes to stand at the
key that it was judged against.
-/

namespace IndexAccess.Path

variable {path : Path} {filters : List Expr} {index : Index}

/-- The refusals of an extension. -/
inductive SeekRefusal (path : Path) : PathError → Prop where
  | noIndex (hmode : path.isTable = true ∨ path.isUnion = true) :
      SeekRefusal path (.noSingleIndex .correlatedSplit)
  | late {index : Index} (hindex : path.index? = some index)
      (hstage : Stage.correlatedSplit.rank ≤ path.stage.rank) :
      SeekRefusal path (.illegalMove path.stage .correlatedSplit)

/-- A seek that is passed over: nothing is bound, the stage alone changes and nothing is counted. -/
structure SeekPassed (path : Path) (outcome : Outcome Path Nat) : Prop where
  result : outcome.result = .ok 0
  state : outcome.state = { path with stage := .correlatedSplit }
  tally : outcome.tally = []

/-- A seek that is extended: the conditions found are put behind those of the path, each at a key
that it allows a seek on, and the filters that were not settled take the place of the table filters.
All other fields but the stage stay. -/
structure SeekExtended (path : Path) (index : Index) (compatible : Compatibility)
    (extension : Seek.Extension) (outcome : Outcome Path Nat) : Prop where
  result : outcome.result = .ok extension.access.length
  state : outcome.state =
    { path with
      stage := .correlatedSplit
      conditions := path.conditions ++ extension.access
      tableFilters := extension.residual }
  usable : ∀ slot condition, path.conditions.length ≤ slot →
    outcome.state.conditions[slot]? = some condition →
      ∃ key, index.keys[slot]? = some key ∧ Seek.judge compatible key.column condition = .usable
  tally : outcome.tally = [extension.tallyEvent]

theorem Sound.prefixCount_le_index (h : path.Sound filters) (hindex : path.index? = some index) :
    path.prefixCount ≤ index.keys.length :=
  h.prefixCount_le.trans (h.conditions_le_index hindex)

/-! ## Success -/

theorem seekPassed_extendSeek (hindex : path.index? = some index)
    (hwithin : path.prefixCount ≤ index.keys.length)
    (hmove : path.stage.canMove .correlatedSplit = true)
    (hconditions : path.conditions.length ≠ path.prefixCount) (compatible : Compatibility) :
    path.SeekPassed (path.extendSeek compatible) := by
  rw [extendSeek_of_conditions_ne hindex hwithin hmove hconditions]
  exact ⟨rfl, rfl, rfl⟩

theorem seekExtended_extendSeek (hindex : path.index? = some index)
    (hwithin : path.prefixCount ≤ index.keys.length)
    (hmove : path.stage.canMove .correlatedSplit = true)
    (hconditions : path.conditions.length = path.prefixCount) (compatible : Compatibility) :
    path.SeekExtended index compatible
      (Seek.extend compatible index.keys path.tableFilters path.prefixCount)
      (path.extendSeek compatible) := by
  rw [extendSeek_of_conditions_eq hindex hwithin hmove hconditions]
  refine ⟨rfl, rfl, ?_, rfl⟩
  intro slot condition hslot hcondition
  obtain ⟨i, rfl⟩ := Nat.exists_eq_add_of_le hslot
  have haccess : (Seek.extend compatible index.keys path.tableFilters
      path.prefixCount).access[i]? = some condition := by
    rw [← hcondition, extendedBy, List.getElem?_append_right hslot, Nat.add_sub_cancel_left]
  rw [hconditions]
  exact Seek.judge_of_getElem?_extend_access compatible index.keys path.tableFilters
    path.prefixCount haccess

theorem result_extendSeek_isOk (hindex : path.index? = some index)
    (hwithin : path.prefixCount ≤ index.keys.length)
    (hmove : path.stage.canMove .correlatedSplit = true) (compatible : Compatibility) :
    (path.extendSeek compatible).result.isOk = true := by
  by_cases hconditions : path.conditions.length = path.prefixCount
  · rw [(seekExtended_extendSeek hindex hwithin hmove hconditions compatible).result]
    rfl
  · rw [(seekPassed_extendSeek hindex hwithin hmove hconditions compatible).result]
    rfl

/-! ## Refusals -/

theorem result_extendSeek_eq_error_iff (h : path.Sound filters) (compatible : Compatibility)
    (error : PathError) :
    (path.extendSeek compatible).result = .error error ↔ path.SeekRefusal error := by
  constructor
  · intro hrefused
    cases hindex : path.index? with
    | none =>
      rw [extendSeek_of_index?_eq_none hindex] at hrefused
      rw [← Except.error.inj hrefused]
      exact .noIndex (index?_eq_none_iff.mp hindex)
    | some index =>
      have hwithin : path.prefixCount ≤ index.keys.length := h.prefixCount_le_index hindex
      cases hmove : path.stage.canMove .correlatedSplit with
      | false =>
        rw [extendSeek_of_not_canMove hindex hwithin hmove] at hrefused
        rw [← Except.error.inj hrefused]
        refine .late hindex ?_
        rw [← Nat.not_lt, ← Stage.canMove_correlatedSplit_iff, hmove]
        exact Bool.false_ne_true
      | true =>
        have hok := result_extendSeek_isOk hindex hwithin hmove compatible
        rw [hrefused] at hok
        cases hok
  · rintro (hmode | ⟨hindex, hstage⟩)
    · rw [extendSeek_of_index?_eq_none (index?_eq_none_iff.mpr hmode)]
      rfl
    · have hmove : path.stage.canMove .correlatedSplit = false := by
        rw [← Bool.not_eq_true, Stage.canMove_correlatedSplit_iff]
        exact Nat.not_lt.mpr hstage
      rw [extendSeek_of_not_canMove hindex (h.prefixCount_le_index hindex) hmove]
      rfl

/-! ## Paths that can be built and run -/

/-- An extension is refused to tables and unions, and to an index path in the stage it leads to or a
later one.  For any index path it could be requested of the index.  Where it succeeds, a range
condition after the prefix lets the seek pass; otherwise what was requested is taken over. -/
theorem extendSeek_effect (h : Reachable filters path) (compatible : Compatibility) :
    (∀ error, (path.extendSeek compatible).result = .error error ↔ path.SeekRefusal error) ∧
      ∀ index, path.index? = some index → ∃ report extension,
        Seek.requestExtension compatible index.keys path.tableFilters path.prefixCount =
          .ok report ∧ report.result = .ok extension ∧
          ∀ bound, (path.extendSeek compatible).result = .ok bound →
            if path.conditions.length = path.prefixCount then
              path.SeekExtended index compatible extension (path.extendSeek compatible)
            else path.SeekPassed (path.extendSeek compatible) := by
  have hsound : path.Sound filters := h.consistent.toSound
  refine ⟨result_extendSeek_eq_error_iff hsound compatible, ?_⟩
  intro index hindex
  have hwithin : path.prefixCount ≤ index.keys.length := hsound.prefixCount_le_index hindex
  refine ⟨_, _, if_pos hwithin, Seek.reportedExtension_result .., ?_⟩
  intro bound hok
  have hmove : path.stage.canMove .correlatedSplit = true := by
    by_contra hlate
    rw [extendSeek_of_not_canMove hindex hwithin (Bool.eq_false_iff.mpr hlate)] at hok
    cases hok
  split
  · next hconditions => exact seekExtended_extendSeek hindex hwithin hmove hconditions compatible
  · next hconditions => exact seekPassed_extendSeek hindex hwithin hmove hconditions compatible

theorem extendSeek_effect_prefixedRead :
    Reachable partialFilters prefixedRead ∧
      (∀ error, (prefixedRead.extendSeek .exact).result = .error error ↔
        prefixedRead.SeekRefusal error) ∧
      prefixedRead.index? = some partialIndex ∧ ∃ report extension,
        Seek.requestExtension .exact partialIndex.keys prefixedRead.tableFilters 1 = .ok report ∧
          report.result = .ok extension ∧ (prefixedRead.extendSeek .exact).result = .ok 1 ∧
            prefixedRead.SeekExtended partialIndex .exact extension
              (prefixedRead.extendSeek .exact) := by
  have hreach : Reachable partialFilters prefixedRead :=
    (Reachable.index partialIndex partialFilters).after _
  obtain ⟨hrefusals, heffect⟩ := extendSeek_effect hreach .exact
  obtain ⟨report, extension, hreport, hextension, hextended⟩ := heffect partialIndex rfl
  have hok : (prefixedRead.extendSeek .exact).result = .ok 1 := rfl
  exact ⟨hreach, hrefusals, rfl, report, extension, hreport, hextension, hok, hextended 1 hok⟩

end IndexAccess.Path
