import IndexAccess.Proofs.Candidates.History
import IndexAccess.Session

/-!
# A selection stands

Once a selection has succeeded, its choice is a member that has been selected, and no later call
changes that: a path that is pushed goes to the end, and a further selection is refused.  So
whoever asks for the selected path, at whatever time, is given the one that the selection returned,
and so is whoever takes it out of the set: the last member moves to its place, and no other member
is lost.
-/

namespace IndexAccess

open scoped List

namespace Candidates

variable {candidates : Candidates} {position : Nat} {winner : Path}

/-- The choice is a member, `winner`, that has been selected. -/
structure Chosen (candidates : Candidates) (position : Nat) (winner : Path) : Prop where
  choice : candidates.choice = some position
  member : candidates.members[position]? = some winner
  stage : winner.stage = .selected

theorem chosen_select (h : (candidates.select position).result = .ok winner) :
    Chosen (candidates.select position).state position winner := by
  obtain ⟨error, hrefused⟩ | ⟨path, hpath, hresult, hstate⟩ := candidates.select_cases position
  · rw [hrefused] at h
    cases h
  · obtain rfl : Candidates.winner path = winner := Except.ok.inj (hresult.symm.trans h)
    obtain ⟨hlt, -⟩ := List.getElem?_eq_some_iff.mp hpath.member
    rw [hstate]
    exact ⟨rfl, getElem?_afterSelection_self hlt path, rfl⟩

theorem Chosen.joinedBy (h : candidates.Chosen position winner) (paths : List Path) :
    (candidates.joinedBy paths).Chosen position winner := by
  obtain ⟨hlt, -⟩ := List.getElem?_eq_some_iff.mp h.member
  exact ⟨h.choice, (List.getElem?_append_left hlt).trans h.member, h.stage⟩

theorem Chosen.afterAll (h : candidates.Chosen position winner) (calls : List Call) :
    (candidates.afterAll calls).Chosen position winner := by
  rw [afterAll_of_chosen h.choice]
  exact h.joinedBy (pushed calls)

theorem Chosen.selected? (h : candidates.Chosen position winner) :
    candidates.selected? = some winner := by
  unfold Candidates.selected?
  rw [h.choice]
  exact h.member

/-! ## Taking the selected path -/

/-- The member at a position is taken out, and no other one is lost. -/
theorem swapRemove?_of_getElem? {members : List Path} {position : Nat} {path : Path}
    (h : members[position]? = some path) :
    ∃ others, swapRemove? members position = some (path, others) ∧
      members.Perm (path :: others) := by
  obtain ⟨before, after, hmembers, -, hset⟩ := split_at_position h
  have hremoved : swapRemove? members position =
      some (path, (before ++ members.getLastD path :: after).dropLast) := by
    unfold swapRemove?
    rw [h, Option.map_some, hset]
  -- The last member is the one taken out or stands behind it.
  rcases List.eq_nil_or_concat' after with rfl | ⟨between, last, rfl⟩
  · refine ⟨before, ?_, ?_⟩
    · rw [hremoved, List.dropLast_concat]
    · rw [hmembers]
      exact List.perm_append_singleton path before
  · have hlast : members.getLastD path = last := by
      rw [hmembers, ← List.cons_append, ← List.append_assoc]
      exact List.getLastD_concat
    refine ⟨before ++ last :: between, ?_, ?_⟩
    · rw [hremoved, hlast, ← List.cons_append, ← List.append_assoc, List.dropLast_concat]
    · rw [hmembers]
      calc before ++ path :: (between ++ [last])
        _ ~ path :: (before ++ (between ++ [last])) := List.perm_middle
        _ ~ path :: (before ++ last :: between) :=
          ((List.perm_append_singleton last between).append_left before).cons path

theorem Chosen.intoSelected? (h : candidates.Chosen position winner) :
    candidates.intoSelected? = some winner := by
  obtain ⟨others, hremoved, -⟩ := swapRemove?_of_getElem? h.member
  unfold Candidates.intoSelected?
  rw [h.choice, Option.bind_some, hremoved]
  rfl

end Candidates

namespace Session

theorem path?_setPath (session : Session) (name : String) (path : Path) :
    (session.setPath name path).path? name = some path := List.lookup_cons_self

theorem set?_setCandidates (session : Session) (name : String) (candidates : Candidates) :
    (session.setCandidates name candidates).set? name = some candidates := List.lookup_cons_self

theorem path?_takeSelected {session : Session} {set : String} {candidates : Candidates}
    {winner : Path} (hset : session.set? set = some candidates)
    (hselected : candidates.intoSelected? = some winner) (name : String) :
    (session.run (.takeSelected set name)).1.path? name = some winner := by
  simp only [run, hset, hselected]
  exact path?_setPath _ name winner

end Session

namespace Candidates

variable {candidates : Candidates} {position : Nat} {winner : Path}

/-- After a selection that succeeds, and whatever is called later, any further selection is refused
since one has been made; the choice is in range, and it is the path that the selection returned; and
all members stay as they are.  Whoever takes the choice out of the set is given that path, and the
other members are what is left. -/
theorem selection_stable (h : (candidates.select position).result = .ok winner)
    (calls more : List Call) :
    let chosen := (candidates.select position).state
    let later := chosen.afterAll calls
    (∀ other, later.select other = .refused later .alreadySelected) ∧
      later.choice = some position ∧ position < later.members.length ∧
      later.members[position]? = some winner ∧ winner.stage = .selected ∧
      later.selected? = some winner ∧
      later.members = chosen.members ++ pushed calls ∧
      (later.afterAll more).members = later.members ++ pushed more ∧
      (∃ others, swapRemove? later.members position = some (winner, others) ∧
        later.members.Perm (winner :: others)) ∧
      later.intoSelected? = some winner ∧
      ∀ (session : Session) (set name : String),
        ((session.setCandidates set later).run (.takeSelected set name)).1.path? name =
          some winner := by
  intro chosen later
  have hchosen : chosen.Chosen position winner := chosen_select h
  have hlater : later.Chosen position winner := hchosen.afterAll calls
  obtain ⟨hlt, -⟩ := List.getElem?_eq_some_iff.mp hlater.member
  have hmembers : later.members = chosen.members ++ pushed calls :=
    congrArg Candidates.members (afterAll_of_chosen hchosen.choice calls)
  have hmore : (later.afterAll more).members = later.members ++ pushed more :=
    congrArg Candidates.members (afterAll_of_chosen hlater.choice more)
  refine ⟨select_of_chosen hlater.choice, hlater.choice, hlt, hlater.member, hlater.stage,
    hlater.selected?, hmembers, hmore, swapRemove?_of_getElem? hlater.member,
    hlater.intoSelected?, ?_⟩
  intro session set name
  exact Session.path?_takeSelected (session.set?_setCandidates set later) hlater.intoSelected? name

/-- A read with its ranges built, and the whole table beside it. -/
def readBesideTable : Candidates := (empty.push builtRead).1.joinedBy [.table none []]

theorem selection_stable_readBesideTable :
    let calls : List Call := [.select 1, .push builtRead, .select 2]
    let more : List Call := [.push (.table none []), .select 0]
    let chosen := (readBesideTable.select 0).state
    let later := chosen.afterAll calls
    (readBesideTable.select 0).result = .ok (Candidates.winner builtRead) ∧
      (∀ other, later.select other = .refused later .alreadySelected) ∧
      later.choice = some 0 ∧ 0 < later.members.length ∧
      later.members[0]? = some (Candidates.winner builtRead) ∧
      (Candidates.winner builtRead).stage = .selected ∧
      later.selected? = some (Candidates.winner builtRead) ∧
      later.members = chosen.members ++ pushed calls ∧
      (later.afterAll more).members = later.members ++ pushed more ∧
      (∃ others, swapRemove? later.members 0 = some (Candidates.winner builtRead, others) ∧
        later.members.Perm (Candidates.winner builtRead :: others)) ∧
      later.intoSelected? = some (Candidates.winner builtRead) ∧
      ∀ (session : Session) (set name : String),
        ((session.setCandidates set later).run (.takeSelected set name)).1.path? name =
          some (Candidates.winner builtRead) := by
  intro calls more chosen later
  have h : (readBesideTable.select 0).result = .ok (Candidates.winner builtRead) := rfl
  exact ⟨h, selection_stable h calls more⟩

end Candidates

end IndexAccess
