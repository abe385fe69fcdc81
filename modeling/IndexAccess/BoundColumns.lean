import IndexAccess.Index

/-!
# Bound columns

The columns that a path has bound, each with the length kept of its value, form a finite map.  One
map dominates another when it has every column of the other with at least the same length; the
whole value outranks every length.  Entries stand in ascending order of their columns, so two maps
with the same look-ups are equal.
-/

namespace IndexAccess

/-- A finite map from column identities to kept lengths, in ascending order. -/
structure BoundColumns where
  entries : List (ColumnId × KeptLength)
  ascending : (entries.map Prod.fst).Pairwise (· < ·)

namespace BoundColumns

def empty : BoundColumns := ⟨[], List.Pairwise.nil⟩

/-- Puts a pair in its place; a pair of the same column is replaced. -/
def insertEntry (column : ColumnId) (kept : KeptLength) :
    List (ColumnId × KeptLength) → List (ColumnId × KeptLength)
  | [] => [(column, kept)]
  | entry :: rest =>
    if column < entry.1 then (column, kept) :: entry :: rest
    else if column = entry.1 then (column, kept) :: rest
    else entry :: insertEntry column kept rest

theorem mem_map_insertEntry {column x : ColumnId} {kept : KeptLength}
    {entries : List (ColumnId × KeptLength)}
    (h : x ∈ (insertEntry column kept entries).map Prod.fst) :
    x = column ∨ x ∈ entries.map Prod.fst := by
  induction entries with
  | nil => simpa [insertEntry] using h
  | cons entry rest ih =>
    simp only [insertEntry] at h
    split at h
    · simpa using h
    · split at h
      · simp only [List.map_cons, List.mem_cons] at h ⊢
        exact h.imp id Or.inr
      · simp only [List.map_cons, List.mem_cons] at h ⊢
        rcases h with h | h
        · exact Or.inr (Or.inl h)
        · exact (ih h).imp id Or.inr

theorem ascending_insertEntry {column : ColumnId} {kept : KeptLength}
    {entries : List (ColumnId × KeptLength)}
    (h : (entries.map Prod.fst).Pairwise (· < ·)) :
    ((insertEntry column kept entries).map Prod.fst).Pairwise (· < ·) := by
  induction entries with
  | nil => simp [insertEntry]
  | cons entry rest ih =>
    simp only [List.map_cons, List.pairwise_cons] at h
    simp only [insertEntry]
    split
    · next hlt =>
      simp only [List.map_cons, List.pairwise_cons, List.mem_cons]
      refine ⟨?_, h⟩
      rintro x (rfl | hx)
      · exact hlt
      · exact UInt64.lt_trans hlt (h.1 x hx)
    · next hnlt =>
      split
      · next heq =>
        simp only [List.map_cons, List.pairwise_cons]
        exact ⟨heq ▸ h.1, h.2⟩
      · next hne =>
        simp only [List.map_cons, List.pairwise_cons]
        refine ⟨fun x hx ↦ ?_, ih h.2⟩
        rcases mem_map_insertEntry hx with rfl | hx
        · exact UInt64.lt_of_le_of_ne (UInt64.not_lt.mp hnlt) (Ne.symm hne)
        · exact h.1 x hx

def insert (bound : BoundColumns) (column : ColumnId) (kept : KeptLength) : BoundColumns :=
  ⟨insertEntry column kept bound.entries, ascending_insertEntry bound.ascending⟩

/-- Of two pairs with the same column the later one counts. -/
def ofList (pairs : List (ColumnId × KeptLength)) : BoundColumns :=
  pairs.foldl (fun bound pair ↦ bound.insert pair.1 pair.2) empty

def get? (bound : BoundColumns) (column : ColumnId) : Option KeptLength :=
  bound.entries.lookup column

/-- Lengths rank by their number and the whole value above all of them. -/
def rank : KeptLength → Nat
  | some length => length.toNat
  | none => 0xFFFFFFFFFFFFFFFF

/-- Which sides have been found to have more of some column than the other side. -/
structure Lead where
  left : Bool
  right : Bool

/-- Takes note of one column of the left side. -/
def Lead.note (right : BoundColumns) (lead : Lead) (entry : ColumnId × KeptLength) : Lead :=
  match right.get? entry.1 with
  | none => { lead with left := true }
  | some kept =>
    match compare (rank entry.2) (rank kept) with
    | .gt => { lead with left := true }
    | .lt => { lead with right := true }
    | .eq => lead

/-- The columns of the left side are looked at one by one; then the right side leads if it has a
column that the left one lacks. -/
def lead (left right : BoundColumns) : Lead :=
  let lead := left.entries.foldl (Lead.note right) ⟨false, false⟩
  if right.entries.any fun entry ↦ (left.get? entry.1).isNone then { lead with right := true }
  else lead

/-- The dominance order; `none` when each side has more of some column. -/
def compare? (left right : BoundColumns) : Option Ordering :=
  match left.lead right with
  | ⟨true, true⟩ => none
  | ⟨true, false⟩ => some .gt
  | ⟨false, true⟩ => some .lt
  | ⟨false, false⟩ => some .eq

end BoundColumns

end IndexAccess
