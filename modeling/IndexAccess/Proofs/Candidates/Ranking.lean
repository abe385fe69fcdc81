import IndexAccess.Proofs.Lifecycle.Representation

/-!
# Ranking and selection agree

A cost model is shown the candidates that can be ranked; it answers with a position to select.
The two rules are written apart: ranking asks for estimates and looks at their growth, selection
looks at the growth of the estimates there are and leaves the rest to the stage.  They agree on all
sets of candidates that can come about, since a path with its ranges built has estimates.
-/

namespace IndexAccess.Candidates

/-- A selection succeeds exactly under its conditions. -/
theorem select_ok_iff_selectable (candidates : Candidates) (position : Nat) :
    (∃ later, (candidates.select position).result = .ok later) ↔
      ∃ path, candidates.Selectable position path := by
  constructor
  · rintro ⟨later, hlater⟩
    rcases select_refused_or_selectable candidates position with ⟨error, hrefused⟩ | hpath
    · rw [hrefused] at hlater
      cases hlater
    · exact hpath
  · rintro ⟨path, hpath⟩
    rw [select_of_selectable hpath]
    exact ⟨winner path, rfl⟩

/-- A position is ranked when its path is, and is not passed over for a forced one. -/
theorem mem_rankable_iff (candidates : Candidates) (position : Nat) :
    position ∈ candidates.rankable.map Prod.fst ↔
      ∃ path, candidates.members[position]? = some path ∧ path.isRankable = true ∧
        (path.forced = true ∨ candidates.anyForced = false) := by
  have hforced : ∀ path : Path, (!candidates.anyForced || path.forced) = true ↔
      path.forced = true ∨ candidates.anyForced = false := by
    intro path
    rw [Bool.or_eq_true, Bool.not_eq_true', or_comm]
  unfold rankable
  rw [List.map_map, List.mem_map]
  constructor
  · rintro ⟨⟨path, place⟩, hmem, rfl⟩
    obtain ⟨hseat, hkept⟩ := List.mem_filter.mp hmem
    obtain ⟨hrank, hhint⟩ := (Bool.and_eq_true ..).mp hkept
    exact ⟨path, List.mem_zipIdx_iff_getElem?.mp hseat, hrank, (hforced path).mp hhint⟩
  · rintro ⟨path, hseat, hrank, hhint⟩
    refine ⟨(path, position), List.mem_filter.mpr ⟨?_, ?_⟩, rfl⟩
    · exact List.mem_zipIdx_iff_getElem?.mpr hseat
    · exact (Bool.and_eq_true ..).mpr ⟨hrank, (hforced path).mpr hhint⟩

/-- Where estimates are recorded, looking at their growth again is what ranking asks for. -/
theorem recheck_eq_ok_iff {path : Path} (h : path.estimates.isSome = true) :
    recheck path = .ok () ↔
      ∃ estimates, path.estimates = some estimates ∧ estimates.check true = .ok () := by
  obtain ⟨estimates, hestimates⟩ := Option.isSome_iff_exists.mp h
  unfold recheck
  simp [hestimates]

theorem isRankable_iff {path : Path} {filters : List Expr} (h : path.Consistent filters) :
    path.isRankable = true ↔ path.stage = .rangesBuilt ∧ recheck path = .ok () := by
  unfold Path.isRankable
  rw [Bool.and_eq_true, beq_iff_eq]
  apply and_congr_right
  intro hbuilt
  rw [recheck_eq_ok_iff (h.estimated (.inl hbuilt))]
  cases hestimates : path.estimates with
  | none => simp
  | some estimates =>
    cases hcheck : estimates.check true with
    | error error => simp [hcheck, Except.isOk, Except.toBool]
    | ok => simp [hcheck, Except.isOk, Except.toBool]

/-- While no choice has been made, the positions that can be selected are those ranked. -/
theorem select_ok_iff_rankable {candidates : Candidates} (h : candidates.Reachable)
    (hchoice : candidates.choice = none) (position : Nat) :
    (∃ later, (candidates.select position).result = .ok later) ↔
      position ∈ candidates.rankable.map Prod.fst := by
  rw [select_ok_iff_selectable, mem_rankable_iff]
  apply exists_congr
  intro path
  constructor
  · intro hpath
    obtain ⟨filters, hreach⟩ := h.member path (List.mem_of_getElem? hpath.member)
    have hrank := (isRankable_iff hreach.consistent).mpr ⟨hpath.built, hpath.counted⟩
    exact ⟨hpath.member, hrank, hpath.forced⟩
  · rintro ⟨hmember, hrank, hforced⟩
    obtain ⟨filters, hreach⟩ := h.member path (List.mem_of_getElem? hmember)
    obtain ⟨hbuilt, hcounted⟩ := (isRankable_iff hreach.consistent).mp hrank
    exact ⟨hchoice, hmember, hforced, hcounted, hbuilt⟩

/-- Two table reads, recorded without a look at growth; the rows of the first grow from none to the
least number above. -/
def tableReads : Candidates :=
  let lenient : Settings := { Settings.standard with refuseGrowth := false }
  let read (rows : Binary64) : Path :=
    (Path.table none []).after (.setEstimates ⟨.zero, rows, none⟩ lenient)
  ((empty.push (read ⟨1⟩)).1.push (read .zero)).1

theorem select_ok_iff_rankable_tableReads :
    tableReads.Reachable ∧ tableReads.choice = none ∧
      ((∃ later, (tableReads.select 0).result = .ok later) ↔
        0 ∈ tableReads.rankable.map Prod.fst) := by
  have h : tableReads.Reachable :=
    .push (.push .empty ((Path.Reachable.table none []).after _))
      ((Path.Reachable.table none []).after _)
  exact ⟨h, rfl, select_ok_iff_rankable h rfl 0⟩

/-- The growing read is neither ranked nor selected. -/
example : tableReads.rankable.map Prod.fst = [1] := by decide

end IndexAccess.Candidates
