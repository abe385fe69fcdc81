import IndexAccess.Proofs.Lifecycle.Coverage
import IndexAccess.Proofs.Lifecycle.EntryFilters

/-!
# The prefix that a path records

When a prefix is recorded, equalities come first, lists may follow them, and conditions may go on
after both.  The equalities lie within the prefix, the prefix within the conditions, and the
conditions within the index.  These bounds hold of every path in the stage that recording leads to,
and nothing narrower does: whatever lies within them is recorded by a path that has just been
created.

What goes on after the prefix is meant to be one range condition at most.  This is not checked where
a prefix is recorded: as many conditions are accepted as the index has keys.
-/

namespace IndexAccess.Path

variable {path : Path} {filters : List Expr} {index : Index} {equalities prefixCount : Nat}
  {conditions : List Expr}

/-- The numbers and conditions that a prefix may be recorded with. -/
structure PrefixInRange (index : Index) (equalities prefixCount : Nat) (conditions : List Expr) :
    Prop where
  equalities_le : equalities ≤ prefixCount
  prefixCount_le : prefixCount ≤ conditions.length
  conditions_le : conditions.length ≤ index.keys.length

/-- The path is in the stage that recording a prefix leads to, with these numbers and conditions. -/
structure HasRecorded (path : Path) (equalities prefixCount : Nat) (conditions : List Expr) :
    Prop where
  stage : path.stage = .equalityExtracted
  equalityCount : path.equalityCount = equalities
  prefixCount : path.prefixCount = prefixCount
  conditions : path.conditions = conditions

theorem Sound.prefixInRange (h : path.Sound filters) (hindex : path.index? = some index) :
    PrefixInRange index path.equalityCount path.prefixCount path.conditions :=
  ⟨h.equalityCount_le, h.prefixCount_le, h.conditions_le_index hindex⟩

/-- A path that has just been created accepts every prefix in range. -/
theorem PrefixInRange.bindPrefix
    (h : PrefixInRange index equalities prefixCount conditions) (hindex : path.index? = some index)
    (hstage : path.stage = .created) :
    path.bindPrefix equalities prefixCount conditions =
      ⟨.ok (), { path with
          stage := .equalityExtracted, conditions, prefixCount, equalityCount := equalities },
        [.stageChanged path.render path.stage .equalityExtracted], []⟩ := by
  obtain ⟨hequalities, hprefixCount, hconditions⟩ := h
  have hmove : path.stage.canMove .equalityExtracted = true := by
    rw [hstage]
    rfl
  unfold Path.bindPrefix
  rw [hindex]
  dsimp only
  rw [if_neg (by omega), if_neg (by omega), if_neg (by omega), moveTo_of_canMove hmove]
  rfl

theorem PrefixInRange.hasRecorded (h : PrefixInRange index equalities prefixCount conditions)
    (filters : List Expr) :
    ((Path.index index filters).after (.bindPrefix equalities prefixCount conditions)).HasRecorded
      equalities prefixCount conditions := by
  have hindex : (Path.index index filters).index? = some index := rfl
  simp only [after]
  rw [h.bindPrefix hindex rfl]
  exact ⟨rfl, rfl, rfl, rfl⟩

/-- Index paths with a recorded prefix have the numbers and conditions in range, and all of them
occur.  Nothing else bounds the conditions that go on after the prefix. -/
theorem hasRecorded_iff_prefixInRange (index : Index) (filters : List Expr)
    (equalities prefixCount : Nat) (conditions : List Expr) :
    (∃ path, Reachable filters path ∧ path.index? = some index ∧
        path.HasRecorded equalities prefixCount conditions) ↔
      PrefixInRange index equalities prefixCount conditions := by
  constructor
  · rintro ⟨path, hreach, hindex, -, rfl, rfl, rfl⟩
    exact hreach.consistent.toSound.prefixInRange hindex
  · intro h
    refine ⟨_, (Reachable.index index filters).after _, ?_, h.hasRecorded filters⟩
    exact (step_after _ _).index?_eq

/-- A range condition on every key, and no equality before them. -/
def rangedRead : Path :=
  (Path.index partialIndex []).after (.bindPrefix 0 0 (partialIndex.keys.map fun key ↦
    .call .gt [.column key.column, .constant (.int 1) (.plain .int)] .binary))

theorem rangedRead_beyond_one_range :
    Reachable [] rangedRead ∧ rangedRead.index? = some partialIndex ∧
      rangedRead.stage = .equalityExtracted ∧
        ¬(rangedRead.prefixCount ≤ rangedRead.conditions.length ∧
          rangedRead.conditions.length ≤
            min (rangedRead.prefixCount + 1) partialIndex.keys.length) := by
  have hreach : Reachable [] rangedRead := (Reachable.index partialIndex []).after _
  exact ⟨hreach, rfl, rfl, by decide⟩

end IndexAccess.Path
