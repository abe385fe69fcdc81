import IndexAccess.Proofs.Seek.Walk

/-!
# The equalities that a seek can use

A filter concerns a column in one form only: an equality with that column on one side and a value
that is fixed during one scan on the other.  The column is known by its identity and its declared
type, whatever name the filter gives it.  The collation is looked at only after that, and only where
the column is a string; it decides whether the filter is usable or incompatible.

The operands are tried in their order first and exchanged afterwards, and an incompatible pair ends
the search.  Nothing is missed by this.  A fixed value is no column, so at most one of the two
orders has the form, and the verdict is the same for both.
-/

namespace IndexAccess.Seek

/-- Constants, and columns of an enclosing query. -/
inductive Fixed : Expr → Prop where
  | constant (value : Literal) (type : SqlType) : Fixed (.constant value type)
  | correlated (column : Column) : Fixed (.correlated column)

/-- The operands of an equality that a seek on `target` can use, in this order. -/
inductive SeekSides (target : Column) : Expr → Expr → Prop where
  | intro {column : Column} {value : Expr} (hid : column.id = target.id)
      (htype : column.type = target.type) (hvalue : Fixed value) :
      SeekSides target (.column column) value

/-- The filters that equate `target` and a fixed value under a collation, in either order. -/
inductive SeekEquality (target : Column) (collation : Collation) : Expr → Prop where
  | inOrder {left right : Expr} (h : SeekSides target left right) :
      SeekEquality target collation (.call .eq [left, right] collation)
  | exchanged {left right : Expr} (h : SeekSides target right left) :
      SeekEquality target collation (.call .eq [left, right] collation)

/-- The verdict on an equality that has the form. -/
def verdictUnder (compatible : Compatibility) (target : Column) (collation : Collation) : Verdict :=
  if target.isString = true ∧ compatible collation target.type.collation = false then .incompatible
  else .usable

variable {compatible : Compatibility} {target : Column} {collation : Collation} {filter : Expr}

theorem verdictUnder_ne_unrelated (compatible : Compatibility) (target : Column)
    (collation : Collation) : verdictUnder compatible target collation ≠ .unrelated := by
  unfold verdictUnder
  split <;> decide

/-! ## One order of operands -/

theorem isFixed_iff {value : Expr} : isFixed value = true ↔ Fixed value := by
  constructor
  · intro h
    cases value with
    | constant value type => exact .constant value type
    | correlated column => exact .correlated column
    | column => cases h
    | call => cases h
  · rintro (_ | _) <;> rfl

theorem seekSides_iff {side value : Expr} :
    SeekSides target side value ↔
      judgeSides compatible target collation side value ≠ .unrelated := by
  rw [judgeSides_ne_unrelated_iff]
  constructor
  · rintro ⟨hid, htype, hvalue⟩
    exact ⟨_, rfl, isFixed_iff.mpr hvalue, Column.sameAs_iff.mpr ⟨hid, htype⟩⟩
  · rintro ⟨column, rfl, hvalue, hsame⟩
    obtain ⟨hid, htype⟩ := Column.sameAs_iff.mp hsame
    exact ⟨hid, htype, isFixed_iff.mp hvalue⟩

/-- The value is no column, so the other order does not have the form. -/
theorem SeekSides.not_exchanged {side value : Expr} (h : SeekSides target side value) :
    ¬SeekSides target value side := by
  obtain ⟨-, -, hvalue⟩ := h
  intro hexchanged
  cases hexchanged
  cases hvalue

theorem judgeSides_of_seekSides {side value : Expr} (h : SeekSides target side value) :
    judgeSides compatible target collation side value =
      verdictUnder compatible target collation := by
  have hrelated : judgeSides compatible target collation side value ≠ .unrelated :=
    seekSides_iff.mp h
  unfold verdictUnder
  split
  · next hbarred =>
    have hnot : judgeSides compatible target collation side value ≠ .usable := by
      intro husable
      have hcertified := (judgeSides_eq_usable_iff.mp husable).2 hbarred.1
      rw [hbarred.2] at hcertified
      cases hcertified
    cases hverdict : judgeSides compatible target collation side value with
    | usable => exact absurd hverdict hnot
    | incompatible => rfl
    | unrelated => exact absurd hverdict hrelated
  · next hfree =>
    refine judgeSides_eq_usable_iff.mpr ⟨hrelated, fun hstring ↦ ?_⟩
    by_contra hcertified
    exact hfree ⟨hstring, Bool.eq_false_iff.mpr hcertified⟩

theorem judgeSides_of_not_seekSides {side value : Expr} (h : ¬SeekSides target side value) :
    judgeSides compatible target collation side value = .unrelated :=
  not_not.mp (mt seekSides_iff.mpr h)

/-! ## Both orders -/

theorem judge_of_seekEquality (h : SeekEquality target collation filter) :
    judge compatible target filter = verdictUnder compatible target collation := by
  cases h with
  | inOrder h =>
    unfold judge
    dsimp only
    rw [judgeSides_of_seekSides h]
    split
    · next hunrelated =>
      exact absurd hunrelated (verdictUnder_ne_unrelated compatible target collation)
    · rfl
  | exchanged h =>
    unfold judge
    dsimp only
    rw [judgeSides_of_not_seekSides h.not_exchanged]
    exact judgeSides_of_seekSides h

theorem judge_ne_unrelated_iff :
    judge compatible target filter ≠ .unrelated ↔
      ∃ collation, SeekEquality target collation filter := by
  constructor
  · intro hrelated
    unfold judge at hrelated
    split at hrelated
    · next left right collation =>
      split at hrelated
      · exact ⟨collation, .exchanged (seekSides_iff.mpr hrelated)⟩
      · next hfirst => exact ⟨collation, .inOrder (seekSides_iff.mpr hfirst)⟩
    · exact absurd rfl hrelated
  · rintro ⟨collation, h⟩
    rw [judge_of_seekEquality h]
    exact verdictUnder_ne_unrelated compatible target collation

theorem SeekEquality.exchange {operator : Operator} {left right : Expr} {under : Collation}
    (h : SeekEquality target collation (.call operator [left, right] under)) :
    SeekEquality target collation (.call operator [right, left] under) := by
  cases h with
  | inOrder h => exact .exchanged h
  | exchanged h => exact .inOrder h

theorem judge_exchange (compatible : Compatibility) (target : Column) (operator : Operator)
    (left right : Expr) (collation : Collation) :
    judge compatible target (.call operator [right, left] collation) =
      judge compatible target (.call operator [left, right] collation) := by
  -- The form does not depend on the order, so both orders have it or neither has.
  by_cases h : ∃ under, SeekEquality target under (.call operator [left, right] collation)
  · obtain ⟨under, hequality⟩ := h
    rw [judge_of_seekEquality hequality, judge_of_seekEquality hequality.exchange]
  · have hexchanged :
        ¬∃ under, SeekEquality target under (.call operator [right, left] collation) :=
      fun ⟨under, hequality⟩ ↦ h ⟨under, hequality.exchange⟩
    rw [not_not.mp (mt judge_ne_unrelated_iff.mp h),
      not_not.mp (mt judge_ne_unrelated_iff.mp hexchanged)]

/-- A verdict other than unrelated is found in whichever order it lies. -/
theorem judge_eq_iff_of_ne_unrelated {verdict : Verdict} (h : verdict ≠ .unrelated)
    (left right : Expr) :
    judge compatible target (.call .eq [left, right] collation) = verdict ↔
      judgeSides compatible target collation left right = verdict ∨
        judgeSides compatible target collation right left = verdict := by
  by_cases hfirst : SeekSides target left right
  · rw [judge_of_seekEquality (.inOrder hfirst), judgeSides_of_seekSides hfirst,
      judgeSides_of_not_seekSides hfirst.not_exchanged, or_iff_left h.symm]
  · have hunrelated : judgeSides compatible target collation left right = .unrelated :=
      judgeSides_of_not_seekSides hfirst
    rw [hunrelated, or_iff_right h.symm]
    unfold judge
    dsimp only
    rw [hunrelated]

/-- A filter concerns a column exactly where it equates the column and a fixed value; the collation
then decides between usable and incompatible.  Exchanged operands have the same verdict, and a
verdict in one order does not hide one in the other. -/
theorem judge_recognizes (compatible : Compatibility) (target : Column) :
    (∀ filter, judge compatible target filter ≠ .unrelated ↔
      ∃ collation, SeekEquality target collation filter) ∧
    (∀ filter collation, SeekEquality target collation filter →
      judge compatible target filter =
        if target.isString = true ∧ compatible collation target.type.collation = false then
          .incompatible
        else .usable) ∧
    (∀ operator left right collation,
      judge compatible target (.call operator [right, left] collation) =
        judge compatible target (.call operator [left, right] collation)) ∧
    ∀ left right collation, ∀ verdict ≠ .unrelated,
      judge compatible target (.call .eq [left, right] collation) = verdict ↔
        judgeSides compatible target collation left right = verdict ∨
          judgeSides compatible target collation right left = verdict := by
  refine ⟨fun filter ↦ judge_ne_unrelated_iff, ?_, judge_exchange compatible target, ?_⟩
  · intro filter collation h
    exact judge_of_seekEquality h
  · intro left right collation verdict hverdict
    exact judge_eq_iff_of_ne_unrelated hverdict left right

/-- The same text equated in both orders under another collation, and an operator that merely has
the name of equality. -/
example :
    let target : Column := ⟨1, "a", ⟨.text, ⟨"utf8_bin"⟩⟩⟩
    let sides : List Expr := [.column target, .constant .null target.type]
    judge .exact target (.call .eq sides .binary) = .incompatible ∧
      judge .exact target (.call .eq sides.reverse .binary) = .incompatible ∧
        judge .exact target (.call (.other "eq") sides ⟨"utf8_bin"⟩) = .unrelated := by
  decide

end IndexAccess.Seek
