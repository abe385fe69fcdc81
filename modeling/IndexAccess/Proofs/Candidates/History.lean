import IndexAccess.Proofs.Lifecycle.Runs

/-!
# Histories of candidates

A set of candidates has a history of calls, each of which pushes a path or selects a position.
Until a selection succeeds, the members are the paths pushed.  The first selection that succeeds
ends those members, and it is the only one; what is pushed later is added to them and never
touched.  So the stage of each member is known from the stage in which it was pushed, its seat,
and the number of members that the selection found.

Pushing asks for nothing.  Hence the member chosen need not be the only one selected, nor need the
others be discarded: a path may be pushed that was selected elsewhere, or after the selection.
-/

namespace IndexAccess

namespace Candidates

/-! ## Calls -/

inductive Call where
  | push (path : Path)
  | select (position : Nat)

def Call.pushed? : Call → Option Path
  | .push path => some path
  | .select _ => none

/-- The paths that some calls push, in their order. -/
def pushed (calls : List Call) : List Path := calls.filterMap Call.pushed?

def after (candidates : Candidates) : Call → Candidates
  | .push path => (candidates.push path).1
  | .select position => (candidates.select position).state

def afterAll (candidates : Candidates) (calls : List Call) : Candidates :=
  calls.foldl after candidates

@[simp] theorem pushed_nil : pushed [] = [] := rfl

@[simp] theorem pushed_push (path : Path) (calls : List Call) :
    pushed (.push path :: calls) = path :: pushed calls := rfl

@[simp] theorem pushed_select (position : Nat) (calls : List Call) :
    pushed (.select position :: calls) = pushed calls := rfl

theorem afterAll_push (candidates : Candidates) (path : Path) (calls : List Call) :
    candidates.afterAll (.push path :: calls) = (candidates.push path).1.afterAll calls := rfl

theorem afterAll_select (candidates : Candidates) (position : Nat) (calls : List Call) :
    candidates.afterAll (.select position :: calls) =
      (candidates.select position).state.afterAll calls := rfl

theorem afterAll_select_of_refused {candidates : Candidates} {position : Nat} {error : PathError}
    (h : candidates.select position = .refused candidates error) (calls : List Call) :
    candidates.afterAll (.select position :: calls) = candidates.afterAll calls := by
  rw [afterAll_select, h]
  rfl

theorem pushed_append (before later : List Call) :
    pushed (before ++ later) = pushed before ++ pushed later := List.filterMap_append

/-- Sets with a history of reachable paths are reachable. -/
theorem Reachable.afterAll {candidates : Candidates} (h : candidates.Reachable)
    {calls : List Call} (hpushed : ∀ path ∈ pushed calls, ∃ filters, Path.Reachable filters path) :
    (candidates.afterAll calls).Reachable := by
  induction calls generalizing candidates with
  | nil => exact h
  | cons call calls ih =>
    cases call with
    | push path =>
      obtain ⟨⟨filters, hpath⟩, hcalls⟩ := List.forall_mem_cons.mp hpushed
      rw [afterAll_push]
      exact ih (h.push hpath) hcalls
    | select position =>
      rw [afterAll_select]
      exact ih (h.select position) hpushed

/-! ## The course of a history -/

/-- The candidates with further members behind them. -/
def joinedBy (candidates : Candidates) (paths : List Path) : Candidates :=
  { candidates with members := candidates.members ++ paths }

@[simp] theorem joinedBy_nil (candidates : Candidates) : candidates.joinedBy [] = candidates := by
  simp [joinedBy]

theorem joinedBy_cons (candidates : Candidates) (path : Path) (paths : List Path) :
    candidates.joinedBy (path :: paths) = (candidates.push path).1.joinedBy paths := by
  simp [joinedBy, push]

theorem select_of_chosen {candidates : Candidates} {chosen : Nat}
    (h : candidates.choice = some chosen) (position : Nat) :
    candidates.select position = .refused candidates .alreadySelected := by
  unfold select
  rw [h]
  rfl

/-- Once a choice has been made, paths are added and nothing else happens. -/
theorem afterAll_of_chosen {candidates : Candidates} {chosen : Nat}
    (h : candidates.choice = some chosen) (calls : List Call) :
    candidates.afterAll calls = candidates.joinedBy (pushed calls) := by
  induction calls generalizing candidates with
  | nil => exact (joinedBy_nil candidates).symm
  | cons call calls ih =>
    cases call with
    | push path =>
      rw [afterAll_push, pushed_push, joinedBy_cons]
      exact ih h
    | select position =>
      rw [afterAll_select_of_refused (select_of_chosen h position), pushed_select]
      exact ih h

/-- A history without a selection only adds paths.  In any other there is one selection, of the
members pushed before it. -/
theorem afterAll_cases (candidates : Candidates) (h : candidates.choice = none)
    (calls : List Call) :
    candidates.afterAll calls = candidates.joinedBy (pushed calls) ∨
      ∃ before position later path, calls = before ++ .select position :: later ∧
        let found := candidates.joinedBy (pushed before)
        candidates.afterAll before = found ∧ found.Selectable position path ∧
          candidates.afterAll calls =
            ⟨found.afterSelection position path ++ pushed later, some position⟩ := by
  induction calls generalizing candidates with
  | nil => exact .inl (joinedBy_nil candidates).symm
  | cons call calls ih =>
    cases call with
    | push path =>
      rw [afterAll_push, pushed_push, joinedBy_cons]
      refine (ih (candidates.push path).1 h).imp id ?_
      rintro ⟨before, position, later, winning, rfl, hcourse⟩
      refine ⟨.push path :: before, position, later, winning, rfl, ?_⟩
      rw [afterAll_push, pushed_push, joinedBy_cons]
      exact hcourse
    | select position =>
      rcases candidates.select_refused_or_selectable position with
        ⟨error, hrefused⟩ | ⟨path, hselectable⟩
      · rw [afterAll_select_of_refused hrefused, pushed_select]
        refine (ih candidates h).imp id ?_
        rintro ⟨before, other, later, winning, rfl, hcourse⟩
        refine ⟨.select position :: before, other, later, winning, rfl, ?_⟩
        rw [afterAll_select_of_refused hrefused, pushed_select]
        exact hcourse
      · refine .inr ⟨[], position, calls, path, rfl, (joinedBy_nil candidates).symm, ?_, ?_⟩
        · rw [pushed_nil, joinedBy_nil]
          exact hselectable
        · rw [afterAll_select, select_of_selectable hselectable, pushed_nil, joinedBy_nil]
          exact afterAll_of_chosen rfl calls

/-! ## Stages -/

/-- The stage of a member when a selection at `position` has found `count` members; the member was
pushed in `stage` and has the seat `seat`. -/
def stageAfter (position count seat : Nat) (stage : Stage) : Stage :=
  if seat = position then .selected
  else if seat < count ∧ stage ≠ .selected then .discarded
  else stage

/-- A choice is of a member, which is selected, while all others are discarded. -/
def Settled (candidates : Candidates) : Prop :=
  ∀ position, candidates.choice = some position →
    position < candidates.members.length ∧
      ∀ seat member, candidates.members[seat]? = some member →
        member.stage = if seat = position then .selected else .discarded

theorem stageAfter_of_le {position count seat : Nat} (hposition : position < count)
    (hseat : count ≤ seat) (stage : Stage) : stageAfter position count seat stage = stage := by
  unfold stageAfter
  rw [if_neg (by omega), if_neg (by omega)]

/-- What has to hold of a member when it is pushed for the set to be settled later. -/
theorem stageAfter_eq_ite_iff {position count seat : Nat} {stage : Stage} :
    (stageAfter position count seat stage = if seat = position then .selected else .discarded) ↔
      seat = position ∨ if seat < count then stage ≠ .selected else stage = .discarded := by
  unfold stageAfter
  by_cases hseat : seat = position
  · simp [hseat]
  · by_cases hcount : seat < count
    · by_cases hstage : stage = .selected <;> simp [hseat, hcount, hstage]
    · simp [hseat, hcount]

theorem map_stage_afterSelection (candidates : Candidates) (position : Nat) (path : Path) :
    (candidates.afterSelection position path).map Access.stage =
      candidates.members.mapIdx fun seat member ↦
        stageAfter position candidates.members.length seat member.stage := by
  apply List.ext_getElem
  · simp [afterSelection]
  · intro seat hseat hseat'
    have hlt : seat < candidates.members.length := by
      rwa [List.length_mapIdx] at hseat'
    rw [List.getElem_mapIdx]
    simp only [afterSelection, List.getElem_map, Path.stage_ended]
    by_cases hwon : position = seat
    · simp [hwon, stageAfter, winner]
    · rw [List.getElem_set_ne hwon]
      by_cases hstage : candidates.members[seat].stage = .selected <;>
        simp [stageAfter, hlt, Ne.symm hwon, hstage]

/-- After a selection, the members found by it are ended and those pushed later are as pushed. -/
theorem map_stage_selected_append {found : Candidates} {position : Nat} {path : Path}
    (h : found.Selectable position path) (later : List Path) :
    (found.afterSelection position path ++ later).map Access.stage =
      (found.members ++ later).mapIdx fun seat member ↦
        stageAfter position found.members.length seat member.stage := by
  obtain ⟨hposition, -⟩ := List.getElem?_eq_some_iff.mp h.member
  rw [List.map_append, List.mapIdx_append, map_stage_afterSelection]
  congr 1
  apply List.ext_getElem
  · simp
  · intro seat hseat hseat'
    rw [List.getElem_map, List.getElem_mapIdx, stageAfter_of_le hposition (by omega)]

theorem settled_iff_of_map_stage {candidates : Candidates} {position count : Nat}
    {paths : List Path} (hchoice : candidates.choice = some position)
    (hposition : position < count) (hcount : count ≤ paths.length)
    (h : candidates.members.map Access.stage =
      paths.mapIdx fun seat path ↦ stageAfter position count seat path.stage) :
    candidates.Settled ↔ ∀ seat path, paths[seat]? = some path →
      seat = position ∨
        if seat < count then path.stage ≠ .selected else path.stage = .discarded := by
  have hlength : candidates.members.length = paths.length := by
    simpa using congrArg List.length h
  have hstage : ∀ seat, candidates.members[seat]?.map Access.stage =
      paths[seat]?.map fun path ↦ stageAfter position count seat path.stage := by
    intro seat
    rw [← List.getElem?_map, h, List.getElem?_mapIdx]
  constructor
  · intro hsettled seat path hpath
    have hseat := hstage seat
    rw [hpath, Option.map_some, Option.map_eq_some_iff] at hseat
    obtain ⟨member, hmember, heq⟩ := hseat
    rw [← stageAfter_eq_ite_iff, ← heq]
    exact (hsettled position hchoice).2 seat member hmember
  · intro hpaths other hother
    obtain rfl : position = other := Option.some.inj (hchoice.symm.trans hother)
    refine ⟨by omega, ?_⟩
    intro seat member hmember
    have hseat := hstage seat
    rw [hmember, Option.map_some, eq_comm, Option.map_eq_some_iff] at hseat
    obtain ⟨path, hpath, heq⟩ := hseat
    rw [← heq, stageAfter_eq_ite_iff]
    exact hpaths seat path hpath

/-- Where a choice has been made, it was made once in the history, and the stage of each member
follows from the stage in which it was pushed.  The choice is of a member that is selected; the
other members found by the selection are discarded, except those that were selected when they were
pushed; those pushed later are as they were pushed.  So the set is settled exactly when the
exceptions and the later members do not come into it. -/
theorem stages_of_chosen {calls : List Call} {position : Nat}
    (h : (empty.afterAll calls).choice = some position) :
    ∃ before later, calls = before ++ .select position :: later ∧
      (empty.afterAll before).choice = none ∧ position < (pushed before).length ∧
        ((empty.afterAll calls).members.map Access.stage =
          (pushed calls).mapIdx fun seat path ↦
            stageAfter position (pushed before).length seat path.stage) ∧
          ((empty.afterAll calls).Settled ↔ ∀ seat path, (pushed calls)[seat]? = some path →
            seat = position ∨
              if seat < (pushed before).length then path.stage ≠ .selected
              else path.stage = .discarded) := by
  rcases afterAll_cases empty rfl calls with
    hnone | ⟨before, chosen, later, path, rfl, hbefore, hselectable, hcalls⟩
  · rw [hnone] at h
    cases h
  · have hstate := h
    rw [hcalls] at hstate
    obtain rfl : chosen = position := Option.some.inj hstate
    have hfound : (empty.joinedBy (pushed before)).members = pushed before := List.nil_append _
    have hpushed : pushed (before ++ .select chosen :: later) = pushed before ++ pushed later := by
      rw [pushed_append, pushed_select]
    have hposition : chosen < (pushed before).length := by
      rw [← hfound]
      exact (List.getElem?_eq_some_iff.mp hselectable.member).1
    have hstages := map_stage_selected_append hselectable (pushed later)
    rw [hfound, ← hpushed] at hstages
    have hmembers := congrArg (fun candidates ↦ candidates.members.map Access.stage) hcalls
    refine ⟨before, later, rfl, ?_, hposition, hmembers.trans hstages, ?_⟩
    · rw [hbefore]
      rfl
    · apply settled_iff_of_map_stage h hposition _ (hmembers.trans hstages)
      rw [hpushed, List.length_append]
      exact Nat.le_add_right _ _

/-! ## Sets that are not settled -/

/-- A table read whose ranges are built. -/
def builtRead : Path := (Path.table none []).after (.setEstimates ⟨.zero, .zero, none⟩ .standard)

/-- A read is selected, and another one is pushed after that. -/
def lateRead : List Call := [.push builtRead, .select 0, .push (.table none [])]

theorem stages_of_chosen_lateRead :
    (empty.afterAll lateRead).choice = some 0 ∧
      ∃ before later, lateRead = before ++ .select 0 :: later ∧
        (empty.afterAll before).choice = none ∧ 0 < (pushed before).length ∧
          ((empty.afterAll lateRead).members.map Access.stage =
            (pushed lateRead).mapIdx fun seat path ↦
              stageAfter 0 (pushed before).length seat path.stage) ∧
            ((empty.afterAll lateRead).Settled ↔
              ∀ seat path, (pushed lateRead)[seat]? = some path →
                seat = 0 ∨
                  if seat < (pushed before).length then path.stage ≠ .selected
                  else path.stage = .discarded) :=
  ⟨rfl, stages_of_chosen rfl⟩

theorem lateRead_not_settled :
    (empty.afterAll lateRead).Reachable ∧
      ((empty.afterAll lateRead).selected?.map Access.stage = some .selected) ∧
        ¬(empty.afterAll lateRead).Settled := by
  refine ⟨Reachable.empty.afterAll ?_, rfl, ?_⟩
  · intro path hpath
    rcases List.mem_pair.mp hpath with rfl | rfl
    · exact ⟨[], (Path.Reachable.table none []).after _⟩
    · exact ⟨[], .table none []⟩
  · intro hsettled
    cases (hsettled 0 rfl).2 1 _ rfl

/-- A read that has been selected among other candidates is pushed before the selection. -/
example :
    let selectedRead := builtRead.after (.compete [] [] none 0)
    (empty.afterAll [.push selectedRead, .push builtRead, .select 1]).members.map Access.stage =
      [.selected, .selected] := by
  decide

end Candidates

end IndexAccess
