import IndexAccess.Proofs.Candidates.Selection

/-!
# Runs of a path

A path lives through a list of actions: hints, the operations of its working stages, and selections
among candidates of which it is one.  A refused action counts as one that leaves the path alone.
`Step` lists all that a single action can do, so that what every run keeps is shown case by case.
A path is reachable from the filters it is built with: over a table or an index, or as a union of
reachable paths, and by actions from there on.
-/

namespace IndexAccess

/-- What can happen to a path.  It competes when one candidate is selected out of `before`, the
path and `after`; the other candidates may be any paths. -/
inductive Action where
  | store (storage : Storage)
  | force (forced : Bool)
  | readRemotely (remote : Bool)
  | bindPrefix (equalities prefixCount : Nat) (conditions : List Expr)
  | extendSeek (compatible : Compatibility)
  | separateFilters
  | setEstimates (estimates : RowEstimates) (settings : Settings)
  | compete (before after : List Path) (choice : Option Nat) (position : Nat)

namespace Path

def after (path : Path) : Action → Path
  | .store storage => path.withStorage storage
  | .force forced => path.withForced forced
  | .readRemotely remote => path.withRemote remote
  | .bindPrefix equalities prefixCount conditions =>
    (path.bindPrefix equalities prefixCount conditions).state
  | .extendSeek compatible => (path.extendSeek compatible).state
  | .separateFilters => path.separateFilters.state
  | .setEstimates estimates settings => (path.setEstimates estimates settings).state
  | .compete before after choice position =>
    let candidates : Candidates := ⟨before ++ path :: after, choice⟩
    (candidates.select position).state.members.getD before.length path

def afterAll (path : Path) (actions : List Action) : Path :=
  actions.foldl after path

/-! ## Single steps -/

/-- All that one action can make of a path. -/
inductive Step (path : Path) : Path → Prop where
  | stay : Step path path
  | hinted (storage : Storage) (remote forced : Bool) :
      Step path { path with storage, remote, forced }
  | bound {index : Index} {equalities prefixCount : Nat} {conditions : List Expr}
      (hindex : path.index? = some index) (hstage : path.stage = .created)
      (hequalities : equalities ≤ prefixCount) (hprefixCount : prefixCount ≤ conditions.length)
      (hconditions : conditions.length ≤ index.keys.length) :
      Step path { path with
        stage := .equalityExtracted, conditions, prefixCount, equalityCount := equalities }
  | skipped {index : Index} (hindex : path.index? = some index)
      (hmove : path.stage.canMove .correlatedSplit = true) :
      Step path { path with stage := .correlatedSplit }
  | extended {index : Index} {compatible : Compatibility} (hindex : path.index? = some index)
      (hmove : path.stage.canMove .correlatedSplit = true)
      (hconditions : path.conditions.length = path.prefixCount)
      (hprefixCount : path.prefixCount ≤ index.keys.length) :
      Step path (path.extendedBy
        (Seek.extend compatible index.keys path.tableFilters path.prefixCount))
  | separated {index : Index} (hindex : path.index? = some index)
      (hstage : path.stage = .equalityExtracted ∨ path.stage = .correlatedSplit) :
      Step path (path.separatedBy index)
  | estimated {estimates : RowEstimates} {settings : Settings}
      (hcheck : estimates.check settings.refuseGrowth = .ok ())
      (hmove : path.stage.canMove .rangesBuilt = true) :
      Step path { path with stage := .rangesBuilt, estimates := some estimates }
  | won (hstage : path.stage = .rangesBuilt) (hcounted : Candidates.recheck path = .ok ()) :
      Step path (Candidates.winner path)
  | ended : Step path path.ended

/-- A selection leaves each member alone, or the member wins, or it ends as discarded. -/
theorem select_getElem?_cases {candidates : Candidates} {position seat : Nat}
    {path later : Path} (h : candidates.members[seat]? = some path)
    (hlater : (candidates.select position).state.members[seat]? = some later) :
    later = path ∨
      (path.stage = .rangesBuilt ∧ Candidates.recheck path = .ok () ∧
        later = Candidates.winner path) ∨
        later = path.ended := by
  obtain ⟨error, hrefused⟩ | ⟨chosen, hchosen, -, hstate⟩ :=
    Candidates.select_cases candidates position
  · rw [hrefused] at hlater
    exact .inl (Option.some.inj (hlater.symm.trans h))
  · rw [hstate] at hlater
    by_cases hseat : seat = position
    · subst hseat
      obtain rfl := Option.some.inj (h.symm.trans hchosen.member)
      obtain ⟨hlt, -⟩ := List.getElem?_eq_some_iff.mp h
      rw [Candidates.getElem?_afterSelection_self hlt] at hlater
      exact .inr (.inl ⟨hchosen.built, hchosen.counted, (Option.some.inj hlater).symm⟩)
    · rw [candidates.getElem?_afterSelection_of_ne hseat, h] at hlater
      exact .inr (.inr (Option.some.inj hlater).symm)

theorem length_select_members (candidates : Candidates) (position : Nat) :
    (candidates.select position).state.members.length = candidates.members.length := by
  obtain ⟨error, hrefused⟩ | ⟨chosen, -, -, hstate⟩ :=
    Candidates.select_cases candidates position
  · rw [hrefused]
    rfl
  · rw [hstate]
    simp [Candidates.afterSelection]

/-- A selection among candidates is an action on each of them. -/
theorem select_members_getElem? {candidates : Candidates} {seat : Nat} {path : Path}
    (h : candidates.members[seat]? = some path) (position : Nat) :
    (candidates.select position).state.members[seat]? =
      some (path.after (.compete (candidates.members.take seat)
        (candidates.members.drop (seat + 1)) candidates.choice position)) := by
  obtain ⟨hlt, hpath⟩ := List.getElem?_eq_some_iff.mp h
  have hmembers : candidates.members.take seat ++ path :: candidates.members.drop (seat + 1) =
      candidates.members := by
    rw [← hpath, ← List.drop_eq_getElem_cons hlt, List.take_append_drop]
  have hseat : (candidates.members.take seat).length = seat := by
    rw [List.length_take, Nat.min_eq_left (Nat.le_of_lt hlt)]
  have hlater := List.getElem?_eq_getElem
    ((length_select_members candidates position).symm ▸ hlt)
  simp only [after]
  rw [hmembers, hseat, List.getD_eq_getElem?_getD, hlater]
  rfl

theorem after_compete_cases (path : Path) (before rest : List Path) (choice : Option Nat)
    (position : Nat) :
    path.after (.compete before rest choice position) = path ∨
      (path.stage = .rangesBuilt ∧ Candidates.recheck path = .ok () ∧
        path.after (.compete before rest choice position) = Candidates.winner path) ∨
        path.after (.compete before rest choice position) = path.ended := by
  let candidates : Candidates := ⟨before ++ path :: rest, choice⟩
  have hseat : candidates.members[before.length]? = some path := by
    simp [candidates]
  have hlt : before.length < (candidates.select position).state.members.length := by
    rw [length_select_members candidates position]
    exact (List.getElem?_eq_some_iff.mp hseat).1
  have hlater := List.getElem?_eq_getElem hlt
  have hafter : path.after (.compete before rest choice position) =
      (candidates.select position).state.members[before.length] := by
    simp only [after]
    rw [List.getD_eq_getElem?_getD, hlater]
    rfl
  rw [hafter]
  exact select_getElem?_cases hseat hlater

theorem step_after (path : Path) (action : Action) : Step path (path.after action) := by
  cases action with
  | store storage => exact .hinted storage path.remote path.forced
  | force forced => exact .hinted path.storage path.remote forced
  | readRemotely remote => exact .hinted path.storage remote path.forced
  | bindPrefix equalities prefixCount conditions =>
    simp only [after]
    obtain ⟨error, h⟩ | ⟨index, hindex, hstage, hequalities, hprefixCount, hconditions, h⟩ :=
      path.bindPrefix_cases equalities prefixCount conditions
    · rw [h]
      exact .stay
    · rw [h]
      exact .bound hindex hstage hequalities hprefixCount hconditions
  | extendSeek compatible =>
    simp only [after]
    obtain ⟨error, h⟩ | ⟨index, hindex, hmove, -, h⟩ |
      ⟨index, hindex, hmove, hconditions, hprefixCount, h⟩ := path.extendSeek_cases compatible
    · rw [h]
      exact .stay
    · rw [h]
      exact .skipped hindex hmove
    · rw [h]
      exact .extended hindex hmove hconditions hprefixCount
  | separateFilters =>
    simp only [after]
    obtain ⟨error, h⟩ | ⟨index, hindex, hstage, h⟩ := path.separateFilters_cases
    · rw [h]
      exact .stay
    · rw [h]
      exact .separated hindex hstage
  | setEstimates estimates settings =>
    simp only [after]
    obtain ⟨error, -, h⟩ | ⟨error, h⟩ | ⟨hcheck, hmove, h⟩ :=
      path.setEstimates_cases estimates settings
    · rw [h]
      exact .stay
    · rw [h]
      exact .stay
    · rw [h]
      exact .estimated hcheck hmove
  | compete before rest choice position =>
    obtain h | ⟨hstage, hcounted, h⟩ | h := path.after_compete_cases before rest choice position
    · rw [h]
      exact .stay
    · rw [h]
      exact .won hstage hcounted
    · rw [h]
      exact .ended

/-! ## Runs -/

/-- Some other path wins, so that a path that has not ended is discarded. -/
theorem exists_after_eq_ended (path : Path) : ∃ action, path.after action = path.ended := by
  let rival : Path := { Path.table none [] with stage := .rangesBuilt, forced := true }
  let candidates : Candidates := ⟨[rival, path], none⟩
  have hrival : candidates.Selectable 0 rival := ⟨rfl, rfl, .inl rfl, rfl, rfl⟩
  refine ⟨.compete [rival] [] none 0, ?_⟩
  change (candidates.select 0).state.members.getD 1 path = path.ended
  rw [Candidates.select_of_selectable hrival]
  rfl

/-- The paths that can be built from a list of filters and run. -/
inductive Reachable : List Expr → Path → Prop where
  | table (primaryKey : Option Column) (filters : List Expr) :
      Reachable filters (.table primaryKey filters)
  | index (index : Index) (filters : List Expr) : Reachable filters (.index index filters)
  | union {settings : Settings} {partials : List Path} {disjunctive : Bool}
      {filters : List Expr} {path : Path} (built : Path → List Expr)
      (hpartials : ∀ part ∈ partials, Reachable (built part) part)
      (h : (Path.union settings partials disjunctive filters).result = .ok path) :
      Reachable filters path
  | after {filters : List Expr} {path : Path} (h : Reachable filters path) (action : Action) :
      Reachable filters (path.after action)

theorem Reachable.afterAll {filters : List Expr} {path : Path} (h : Reachable filters path)
    (actions : List Action) : Reachable filters (path.afterAll actions) :=
  List.foldlRecOn actions Path.after h fun _ hreach action _ ↦ hreach.after action

end Path

/-- The sets of candidates that can be filled with reachable paths and selected from. -/
inductive Candidates.Reachable : Candidates → Prop where
  | empty : Reachable .empty
  | push {candidates : Candidates} {filters : List Expr} {path : Path}
      (h : Reachable candidates) (hpath : path.Reachable filters) :
      Reachable (candidates.push path).1
  | select {candidates : Candidates} (h : Reachable candidates) (position : Nat) :
      Reachable (candidates.select position).state

theorem Candidates.Reachable.member {candidates : Candidates} (h : candidates.Reachable) :
    ∀ path ∈ candidates.members, ∃ filters, Path.Reachable filters path := by
  induction h with
  | empty => simp [Candidates.empty]
  | push _ hpath ih =>
    intro path hmem
    rcases List.mem_append.mp hmem with hmem | hmem
    · exact ih path hmem
    · rw [List.mem_singleton.mp hmem]
      exact ⟨_, hpath⟩
  | @select candidates _ position ih =>
    intro path hmem
    obtain ⟨seat, hlater⟩ := List.mem_iff_getElem?.mp hmem
    have hlt := (List.getElem?_eq_some_iff.mp hlater).1
    rw [Path.length_select_members] at hlt
    have hseat := List.getElem?_eq_getElem hlt
    rw [Path.select_members_getElem? hseat position] at hlater
    obtain ⟨filters, hreach⟩ := ih _ (List.getElem_mem hlt)
    rw [← Option.some.inj hlater]
    exact ⟨filters, hreach.after _⟩

end IndexAccess
