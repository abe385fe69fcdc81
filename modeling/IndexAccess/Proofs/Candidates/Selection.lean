import IndexAccess.Candidates
import IndexAccess.Proofs.Path.Outcomes

/-!
# Outcome of a selection

A selection is refused with the candidates left as they were, or it succeeds: one member moves from
its built ranges to its selection, all others end as discarded, and nothing else about them changes.
Once the winner has moved, no later step can be refused.
-/

namespace IndexAccess.Candidates

theorem discardLive_eq (members : List Path) :
    discardLive members =
      ⟨.ok (members.countP fun path ↦ !path.stage.isFinal), members.map Path.ended,
        members.flatMap Path.endLog, []⟩ := by
  unfold discardLive
  rw [Outcome.forEach_eq Path.discardIfLive_eq]
  simp [Outcome.done, List.count_eq_countP, List.countP_map, Function.comp_def]

theorem set_members_of_getElem? {candidates : Candidates} {position : Nat} {path : Path}
    (h : candidates.members[position]? = some path) :
    candidates.members.set position path = candidates.members := by
  obtain ⟨hlt, rfl⟩ := List.getElem?_eq_some_iff.mp h
  exact List.set_getElem_self hlt

/-- Around the member at a position, the others stand as they were. -/
theorem split_at_position {members : List Path} {position : Nat} {path : Path}
    (h : members[position]? = some path) :
    ∃ before after, members = before ++ path :: after ∧
      members.eraseIdx position = before ++ after ∧
        ∀ other, members.set position other = before ++ other :: after := by
  obtain ⟨hlt, rfl⟩ := List.getElem?_eq_some_iff.mp h
  refine ⟨members.take position, members.drop (position + 1), ?_, ?_, fun other ↦ ?_⟩
  · rw [← List.drop_eq_getElem_cons hlt, List.take_append_drop]
  · exact List.eraseIdx_eq_take_drop_succ members position
  · rw [List.set_eq_take_append_cons_drop, if_pos hlt]

/-- The conditions under which the member at a position is selected. -/
structure Selectable (candidates : Candidates) (position : Nat) (path : Path) : Prop where
  open_choice : candidates.choice = none
  member : candidates.members[position]? = some path
  forced : path.forced = true ∨ candidates.anyForced = false
  counted : recheck path = .ok ()
  built : path.stage = .rangesBuilt

/-- The winner; it differs from the member selected in its stage alone. -/
def winner (path : Path) : Path := { path with stage := .selected }

/-- The members after the selection of `path` at a position. -/
def afterSelection (candidates : Candidates) (position : Nat) (path : Path) : List Path :=
  (candidates.members.set position (winner path)).map Path.ended

theorem ended_winner (path : Path) : (winner path).ended = winner path :=
  if_pos rfl

theorem getElem?_afterSelection_self {candidates : Candidates} {position : Nat}
    (h : position < candidates.members.length) (path : Path) :
    (candidates.afterSelection position path)[position]? = some (winner path) := by
  unfold afterSelection
  rw [List.getElem?_map, List.getElem?_set_self h, Option.map_some, ended_winner]

theorem getElem?_afterSelection_of_ne (candidates : Candidates) {position seat : Nat}
    (h : seat ≠ position) (path : Path) :
    (candidates.afterSelection position path)[seat]? =
      candidates.members[seat]?.map Path.ended := by
  unfold afterSelection
  rw [List.getElem?_map, List.getElem?_set_ne h.symm]

theorem select_of_selectable {candidates : Candidates} {position : Nat} {path : Path}
    (h : candidates.Selectable position path) :
    let others := candidates.members.set position (winner path)
    let discarded := others.countP fun other ↦ !other.stage.isFinal
    candidates.select position =
      ⟨.ok (winner path), ⟨candidates.afterSelection position path, some position⟩,
        .stageChanged path.render .rangesBuilt .selected :: others.flatMap Path.endLog ++
          [.pathSelected position discarded (winner path).render],
        [.selection discarded]⟩ := by
  have hforced : (!path.forced && candidates.anyForced) = false := by
    rcases h.forced with hforced | hnone
    · rw [hforced]
      rfl
    · rw [hnone, Bool.and_false]
  unfold select
  simp only [h.open_choice, h.member, h.counted, hforced, Option.isSome_none, Bool.false_eq_true,
    if_false, Path.finish_selected_of_rangesBuilt h.built, discardLive_eq, Outcome.mk_embed,
    Outcome.mk_ok_andThen, h.built]
  rfl

/-- A selection is refused and leaves the candidates alone unless its conditions hold. -/
theorem select_refused_or_selectable (candidates : Candidates) (position : Nat) :
    (∃ error, candidates.select position = .refused candidates error) ∨
      ∃ path, candidates.Selectable position path := by
  unfold select
  split
  · exact .inl ⟨_, rfl⟩
  · next hchoice =>
    split
    · exact .inl ⟨_, rfl⟩
    · next path hmember =>
      split
      · exact .inl ⟨_, rfl⟩
      · next hforced =>
        split
        · exact .inl ⟨_, rfl⟩
        · next hcounted =>
          by_cases hbuilt : path.stage = .rangesBuilt
          · refine .inr ⟨path, ?_, hmember, ?_, hcounted, hbuilt⟩
            · simpa using hchoice
            · cases hpath : path.forced <;> simp_all
          · -- The winner does not move, and putting it back in its place changes nothing.
            simp only [Path.finish_selected_of_ne hbuilt, Outcome.refused_embed,
              set_members_of_getElem? hmember, Outcome.refused_andThen]
            exact .inl ⟨_, rfl⟩

theorem select_cases (candidates : Candidates) (position : Nat) :
    (∃ error, candidates.select position = .refused candidates error) ∨
      ∃ path, candidates.Selectable position path ∧
        (candidates.select position).result = .ok (winner path) ∧
          (candidates.select position).state =
            ⟨candidates.afterSelection position path, some position⟩ := by
  refine (select_refused_or_selectable candidates position).imp_right ?_
  rintro ⟨path, hpath⟩
  rw [select_of_selectable hpath]
  exact ⟨path, hpath, rfl, rfl⟩

end IndexAccess.Candidates
