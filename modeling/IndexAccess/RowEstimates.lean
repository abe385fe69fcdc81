import IndexAccess.PathError

/-!
# Row estimates

The estimated number of rows left after access, after the filters read from the index, and, where
it is known, after the filters read from the table.  Each is a finite number that is not negative;
none grows from one step to the next.
-/

namespace IndexAccess

structure RowEstimates where
  access : Binary64
  index : Binary64
  table : Option Binary64
  deriving DecidableEq

namespace RowEstimates

def values (estimates : RowEstimates) : List Binary64 :=
  estimates.access :: estimates.index :: estimates.table.toList

/-- Negative zero counts as zero. -/
def isRowCount (value : Binary64) : Bool :=
  value.isFinite && !value.lt .zero

def grows (estimates : RowEstimates) : Bool :=
  estimates.access.lt estimates.index ||
    estimates.table.any fun rows ↦ !rows.le estimates.index

/-- The first value that is no row count is reported, in the order of the steps; growth is looked
at only on request, and after that. -/
def check (estimates : RowEstimates) (refuseGrowth : Bool) : Except PathError Unit :=
  match estimates.values.find? fun value ↦ !isRowCount value with
  | some value => .error (.notARowCount value)
  | none =>
    if refuseGrowth && estimates.grows then
      .error (.growingEstimates estimates.access estimates.index estimates.table)
    else .ok ()

def equal (left right : RowEstimates) : Bool :=
  left.access.equal right.access && left.index.equal right.index &&
    match left.table, right.table with
    | none, none => true
    | some a, some b => a.equal b
    | _, _ => false

theorem check_eq_ok_iff {estimates : RowEstimates} {refuseGrowth : Bool} :
    estimates.check refuseGrowth = .ok () ↔
      (∀ value ∈ estimates.values, isRowCount value = true) ∧
        (refuseGrowth = true → estimates.grows = false) := by
  unfold check
  split
  · next value h =>
    have hbad := List.find?_some h
    have hmem := List.mem_of_find?_eq_some h
    constructor
    · intro hok
      cases hok
    · intro hall
      have hgood := hall.1 value hmem
      simp [hgood] at hbad
  · next h =>
    have hall : ∀ value ∈ estimates.values, isRowCount value = true := by
      simpa using h
    split
    · next hgrows =>
      simp only [Bool.and_eq_true] at hgrows
      simp [hgrows.1, hgrows.2]
    · next hgrows =>
      exact ⟨fun _ ↦ ⟨hall, fun hrefuse ↦ by simpa [hrefuse] using hgrows⟩, fun _ ↦ rfl⟩

end RowEstimates

end IndexAccess
