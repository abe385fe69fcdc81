import IndexAccess.Column

/-!
# Indexes

An index orders rows by its key columns.  A key column may keep only the first characters of its
value; a seek on such a key cannot certify equality of the whole value.  An index is a declaration
whose key list is well formed: it is not empty, no key keeps zero characters, and no column
identity occurs twice.  `Index.ofDecl` checks a declaration and names its first fault.
-/

namespace IndexAccess

/-- How much of a column's value is kept: the whole of it, or that many characters. -/
abbrev KeptLength := Option UInt32

structure KeyColumn where
  column : Column
  kept : KeptLength
  deriving DecidableEq

namespace KeyColumn

def id (key : KeyColumn) : ColumnId := key.column.id

def isWhole (key : KeyColumn) : Bool := key.kept.isNone

def render (key : KeyColumn) : String :=
  match key.kept with
  | none => key.column.name
  | some length => key.column.name ++ "(" ++ toString length ++ ")"

end KeyColumn

structure IndexDecl where
  id : UInt64
  name : String
  keys : List KeyColumn
  unique : Bool
  /-- The row handle that every entry of the index carries, if the table has one. -/
  handle : Option Column
  deriving DecidableEq

inductive IndexFault where
  | noKeys (index : String)
  | emptyKey (index column : String)
  | repeatedColumn (index column : String)
  deriving DecidableEq

namespace IndexFault

def message : IndexFault → String
  | .noKeys index => "index '" ++ index ++ "' has no key columns"
  | .emptyKey index column =>
    "index '" ++ index ++ "' column '" ++ column ++ "' has a zero-length prefix"
  | .repeatedColumn index column => "index '" ++ index ++ "' repeats column '" ++ column ++ "'"

end IndexFault

/-! ## Well-formed key lists -/

structure WellFormedKeys (keys : List KeyColumn) : Prop where
  nonempty : keys ≠ []
  kept : ∀ key ∈ keys, key.kept ≠ some 0
  distinct : (keys.map KeyColumn.id).Nodup

namespace IndexDecl

/-- The first fault among `keys`, of which those with the identities `earlier` are passed.  A key
that keeps nothing is reported as such even when it repeats a column. -/
def keyFault? (index : String) (earlier : List ColumnId) : List KeyColumn → Option IndexFault
  | [] => none
  | key :: rest =>
    if key.kept = some 0 then some (.emptyKey index key.column.name)
    else if key.id ∈ earlier then some (.repeatedColumn index key.column.name)
    else keyFault? index (key.id :: earlier) rest

def fault? (decl : IndexDecl) : Option IndexFault :=
  if decl.keys = [] then some (.noKeys decl.name) else keyFault? decl.name [] decl.keys

theorem keyFault?_eq_none_iff {index : String} {earlier : List ColumnId}
    {keys : List KeyColumn} :
    keyFault? index earlier keys = none ↔
      (∀ key ∈ keys, key.kept ≠ some 0 ∧ key.id ∉ earlier) ∧
        (keys.map KeyColumn.id).Nodup := by
  induction keys generalizing earlier with
  | nil => simp [keyFault?]
  | cons key rest ih =>
    simp only [keyFault?, List.map_cons, List.nodup_cons, List.mem_map, List.forall_mem_cons]
    by_cases hkept : key.kept = some 0
    · simp [hkept]
    · by_cases hseen : key.id ∈ earlier
      · simp [hkept, hseen]
      · simp only [hkept, hseen, if_false, ih, List.mem_cons, not_or]
        constructor
        · rintro ⟨hall, hnodup⟩
          exact ⟨⟨⟨hkept, not_false⟩, fun k hk ↦ ⟨(hall k hk).1, (hall k hk).2.2⟩⟩,
            fun ⟨k, hk, heq⟩ ↦ (hall k hk).2.1 heq, hnodup⟩
        · rintro ⟨⟨_, hall⟩, hnew, hnodup⟩
          exact ⟨fun k hk ↦ ⟨(hall k hk).1, fun heq ↦ hnew ⟨k, hk, heq⟩, (hall k hk).2⟩, hnodup⟩

theorem fault?_eq_none_iff {decl : IndexDecl} :
    decl.fault? = none ↔ WellFormedKeys decl.keys := by
  unfold fault?
  split
  · next h => simpa using fun hkeys : WellFormedKeys decl.keys ↦ hkeys.nonempty h
  · next h =>
    rw [keyFault?_eq_none_iff]
    exact ⟨fun ⟨hkeys, hnodup⟩ ↦ ⟨h, fun k hk ↦ (hkeys k hk).1, hnodup⟩,
      fun hkeys ↦ ⟨fun k hk ↦ ⟨hkeys.kept k hk, List.not_mem_nil⟩, hkeys.distinct⟩⟩

end IndexDecl

/-- A declaration with a well-formed key list. -/
structure Index extends IndexDecl where
  wellFormed : WellFormedKeys keys

namespace Index

def ofDecl (decl : IndexDecl) : Except IndexFault Index :=
  match h : decl.fault? with
  | none => .ok ⟨decl, IndexDecl.fault?_eq_none_iff.mp h⟩
  | some fault => .error fault

/-- Whether the column's whole value can be read from an entry of the index. -/
def covers (index : Index) (column : ColumnId) : Bool :=
  index.keys.any (fun key ↦ key.isWhole && key.id == column) ||
    index.handle.any (fun handle ↦ handle.id == column)

def render (index : Index) : String :=
  (if index.unique then "UNIQUE " else "") ++ index.name ++ "(" ++
    ", ".intercalate (index.keys.map KeyColumn.render) ++ ")"

/-- Two indexes are equal when their declarations are. -/
def equal (left right : Index) : Bool :=
  left.toIndexDecl == right.toIndexDecl

end Index

end IndexAccess
