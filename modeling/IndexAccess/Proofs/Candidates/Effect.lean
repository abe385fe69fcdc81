import IndexAccess.Proofs.Lifecycle.Representation
import IndexAccess.Proofs.Session.Deeds

/-!
# What a selection does to the members

A selection that succeeds changes stages and nothing else.  The winner moves from its built ranges
to its selection.  Every other member that has not ended is discarded, a union with all its branches
that have not ended; what had ended before is passed over, be it a member or a branch.

No member is left that could still be worked on, and no branch of a discarded one.  For the members
that the selection itself discards this can be seen from what it does.  A union that was discarded
before is not looked at again, and that its branches have ended follows from its history.
-/

namespace IndexAccess

/-! ## Paths without their stages -/

def Branch.unstaged (branch : Branch) : Branch := { branch with stage := .created }

theorem Branch.unstaged_ended (branch : Branch) : branch.ended.unstaged = branch.unstaged := by
  unfold ended
  split <;> rfl

namespace Path

def unstagedMode : Mode → Mode
  | .single single => .single single
  | .union branches disjunctive => .union (branches.map Branch.unstaged) disjunctive

/-- All that a path holds besides its own stage and the stages of its branches. -/
def unstaged (path : Path) : Path :=
  { path with stage := .created, mode := unstagedMode path.mode }

theorem unstagedMode_endedMode (mode : Mode) :
    unstagedMode (endedMode mode) = unstagedMode mode := by
  cases mode with
  | single => rfl
  | union branches disjunctive =>
    simp only [endedMode, unstagedMode, List.map_map, Function.comp_def, Branch.unstaged_ended]

theorem unstaged_ended (path : Path) : path.ended.unstaged = path.unstaged := by
  unfold ended
  split
  · rfl
  · simp only [unstaged, unstagedMode_endedMode]

/-! ## The effect on one member -/

/-- What becomes of a member that is not the winner. -/
structure PassedOver (former later : Path) : Prop where
  kept : former.stage.isFinal = true → later = former
  discarded : former.stage.isFinal = false → later.stage = .discarded
  branches : former.stage.isFinal = false →
    later.branches = former.branches.map fun branch ↦
      if branch.stage.isFinal then branch else { branch with stage := .discarded }

theorem passedOver_ended (path : Path) : path.PassedOver path.ended where
  kept := fun hfinal ↦ if_pos hfinal
  discarded := fun hlive ↦ congrArg Access.stage (ended_of_live hlive)
  branches := branches_ended

end Path

namespace Candidates

variable {candidates : Candidates} {position : Nat} {winner : Path}

/-! ## The effect on all members -/

/-- The effect of a selection on the members, by their seats and on all of them. -/
structure SelectionEffect (before after : List Path) (position : Nat) (winner : Path) : Prop where
  won : ∃ path, before[position]? = some path ∧ path.stage = .rangesBuilt ∧
    winner = { path with stage := .selected }
  returned : after[position]? = some winner
  passed : ∀ seat former, seat ≠ position → before[seat]? = some former →
    ∃ later, after[seat]? = some later ∧ former.PassedOver later
  final : ∀ member ∈ after, member.stage.isFinal = true
  branches_final : ∀ member ∈ after, member.stage = .discarded →
    ∀ branch ∈ member.branches, branch.stage.isFinal = true
  unstaged : after.map Path.unstaged = before.map Path.unstaged

theorem map_unstaged_afterSelection {path : Path}
    (h : candidates.members[position]? = some path) :
    (candidates.afterSelection position path).map Path.unstaged =
      candidates.members.map Path.unstaged := by
  calc (candidates.afterSelection position path).map Path.unstaged
    _ = (candidates.members.set position (Candidates.winner path)).map Path.unstaged := by
      rw [afterSelection, List.map_map]
      exact List.map_congr_left fun member _ ↦ member.unstaged_ended
    _ = (candidates.members.set position path).map Path.unstaged := by
      rw [List.map_set, List.map_set]
      rfl
    _ = candidates.members.map Path.unstaged := by rw [set_members_of_getElem? h]

theorem selectionEffect_afterSelection {path : Path} (h : candidates.Selectable position path)
    (hreach : ∀ member ∈ candidates.afterSelection position path,
      ∃ filters, Path.Reachable filters member) :
    SelectionEffect candidates.members (candidates.afterSelection position path) position
      (Candidates.winner path) where
  won := ⟨path, h.member, h.built, rfl⟩
  returned := by
    obtain ⟨hlt, -⟩ := List.getElem?_eq_some_iff.mp h.member
    exact getElem?_afterSelection_self hlt path
  passed := by
    intro seat former hseat hformer
    refine ⟨former.ended, ?_, former.passedOver_ended⟩
    rw [candidates.getElem?_afterSelection_of_ne hseat, hformer]
    rfl
  final := by
    intro member hmember
    obtain ⟨former, -, rfl⟩ := List.mem_map.mp hmember
    exact former.isFinal_ended
  branches_final := by
    intro member hmember
    obtain ⟨filters, hmember⟩ := hreach member hmember
    exact hmember.consistent.branches_final
  unstaged := map_unstaged_afterSelection h.member

theorem tally_select_of_ok (h : (candidates.select position).result = .ok winner) :
    (candidates.select position).tally =
      [.selection (newlyDiscarded candidates.members
        (candidates.select position).state.members)] := by
  rw [tally_select, selectionDeeds, h]
  rfl

/-- The effect of any selection that succeeds.  It is counted once, with the number of members that
have come to be discarded by it, their branches not counted. -/
theorem selection_effect (h : candidates.Reachable)
    (hok : (candidates.select position).result = .ok winner) :
    let outcome := candidates.select position
    SelectionEffect candidates.members outcome.state.members position winner ∧
      outcome.state.choice = some position ∧
        outcome.tally =
          [.selection (newlyDiscarded candidates.members outcome.state.members)] := by
  obtain ⟨error, hrefused⟩ | ⟨path, hpath, hresult, hstate⟩ := candidates.select_cases position
  · rw [hrefused] at hok
    cases hok
  · obtain rfl : Candidates.winner path = winner := Except.ok.inj (hresult.symm.trans hok)
    have hmembers : ∀ member ∈ (candidates.select position).state.members,
        ∃ filters, Path.Reachable filters member := (h.select position).member
    refine ⟨?_, ?_, tally_select_of_ok hok⟩
    · rw [hstate] at hmembers ⊢
      exact selectionEffect_afterSelection hpath hmembers
    · rw [hstate]

/-- A read that was selected elsewhere. -/
def chosenRead : Path := builtRead.after (.compete [] [] none 0)

/-- The union of the whole table with that read. -/
def halfEndedUnion : Path :=
  .create (.union ([Path.table none [], chosenRead].filterMap Path.toBranch?) true) []

/-- A union that has not ended, with a branch that has; a read that has been selected; and one whose
ranges are built. -/
def readAmongOthers : Candidates := empty.joinedBy [halfEndedUnion, chosenRead, builtRead]

theorem reachable_readAmongOthers : readAmongOthers.Reachable := by
  have hbuilt : Path.Reachable [] builtRead := (Path.Reachable.table none []).after _
  have hselected : Path.Reachable [] chosenRead := hbuilt.after _
  have hunited : (Path.union .standard [.table none [], chosenRead] true []).result =
      .ok halfEndedUnion := rfl
  have hunion : Path.Reachable [] halfEndedUnion := by
    refine .union (fun _ ↦ []) ?_ hunited
    intro part hpart
    rcases List.mem_pair.mp hpart with rfl | rfl
    · exact .table none []
    · exact hselected
  exact ((Reachable.empty.push hunion).push hselected).push hbuilt

theorem selection_effect_readAmongOthers :
    let outcome := readAmongOthers.select 2
    readAmongOthers.Reachable ∧ outcome.result = .ok (Candidates.winner builtRead) ∧
      SelectionEffect readAmongOthers.members outcome.state.members 2
        (Candidates.winner builtRead) ∧
        outcome.state.choice = some 2 ∧
          outcome.tally =
            [.selection (newlyDiscarded readAmongOthers.members outcome.state.members)] := by
  intro outcome
  have hok : outcome.result = .ok (Candidates.winner builtRead) := rfl
  exact ⟨reachable_readAmongOthers, hok, selection_effect reachable_readAmongOthers hok⟩

/-- Two branches and two other members, of which one each had ended before. -/
example :
    let outcome := readAmongOthers.select 2
    outcome.state.members.map Access.stage = [.discarded, .selected, .selected] ∧
      (outcome.state.members.flatMap fun member ↦ member.branches.map Access.stage) =
        [.discarded, .selected] ∧
        outcome.tally = [.selection 1] := by
  decide

end Candidates

end IndexAccess
