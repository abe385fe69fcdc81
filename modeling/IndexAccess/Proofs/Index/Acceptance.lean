import IndexAccess.Index
import Mathlib.Order.Bounds.Basic
import Mathlib.Data.List.Nodup
import Mathlib.Tactic.ByContra

/-!
# Declarations that are accepted

A declaration is scanned key by key, each one against those that were passed.  So a fault is found
at the first position that has one, and a list without a faulty position is one whose columns are
all different: two equal columns at any places make the later place faulty.

A place may be faulty in both ways, and a list in several places.  The scan tells of the first
place, and there of a key that keeps nothing rather than of a repeated column.
-/

namespace IndexAccess

namespace IndexDecl

/-! ## Faulty positions -/

/-- The key there keeps nothing, or it has a column that an earlier key has. -/
def FaultyAt (keys : List KeyColumn) (position : Nat) : Prop :=
  ∃ key, keys[position]? = some key ∧
    (key.kept = some 0 ∨ key.id ∈ (keys.take position).map KeyColumn.id)

/-- The fault told of a key that is faulty. -/
def faultOf (index : String) (key : KeyColumn) : IndexFault :=
  if key.kept = some 0 then .emptyKey index key.column.name
  else .repeatedColumn index key.column.name

theorem faultyAt_append_left {keys : List KeyColumn} {position : Nat}
    (h : position < keys.length) (more : List KeyColumn) :
    FaultyAt (keys ++ more) position ↔ FaultyAt keys position := by
  unfold FaultyAt
  rw [List.getElem?_append_left h, List.take_append_of_le_length (Nat.le_of_lt h)]

/-- Where all columns are different, none of them comes again at any position. -/
theorem not_faultyAt {keys : List KeyColumn} (hkept : ∀ key ∈ keys, key.kept ≠ some 0)
    (hdistinct : (keys.map KeyColumn.id).Nodup) (position : Nat) : ¬FaultyAt keys position := by
  rintro ⟨key, hkey, hempty | hrepeated⟩
  · exact hkept key (List.mem_of_getElem? hkey) hempty
  · obtain ⟨hlt, rfl⟩ := List.getElem?_eq_some_iff.mp hkey
    rw [← List.take_append_drop position keys, List.drop_eq_getElem_cons hlt, List.map_append,
      List.map_cons] at hdistinct
    obtain ⟨hnew, -⟩ := List.nodup_cons.mp (List.nodup_middle.mp hdistinct)
    exact hnew (List.mem_append_left _ hrepeated)

/-- After keys without a fault, a faulty one stands at the least faulty position. -/
theorem isLeast_faultyAt {before : List KeyColumn} {key : KeyColumn}
    (hkept : ∀ key ∈ before, key.kept ≠ some 0) (hdistinct : (before.map KeyColumn.id).Nodup)
    (hfault : key.kept = some 0 ∨ key.id ∈ before.map KeyColumn.id) (after : List KeyColumn) :
    IsLeast {position | FaultyAt (before ++ key :: after) position} before.length := by
  constructor
  · refine ⟨key, by simp, ?_⟩
    rwa [List.take_left]
  · intro position hposition
    by_contra hearlier
    rw [Nat.not_le] at hearlier
    exact not_faultyAt hkept hdistinct position
      ((faultyAt_append_left hearlier (key :: after)).mp hposition)

/-! ## The scan -/

/-- The scan stops at the first key that keeps nothing or has a column passed before. -/
theorem keyFault?_eq_some {index : String} {earlier : List ColumnId} {keys : List KeyColumn}
    {fault : IndexFault} (h : keyFault? index earlier keys = some fault) :
    ∃ before key after, keys = before ++ key :: after ∧ keyFault? index earlier before = none ∧
      (key.kept = some 0 ∨ key.id ∈ earlier ∨ key.id ∈ before.map KeyColumn.id) ∧
        fault = faultOf index key := by
  induction keys generalizing earlier with
  | nil => cases h
  | cons key rest ih =>
    unfold keyFault? at h
    split at h
    · next hempty =>
      refine ⟨[], key, rest, rfl, rfl, .inl hempty, ?_⟩
      rw [← Option.some.inj h, faultOf, if_pos hempty]
    · next hkept =>
      split at h
      · next hpassed =>
        refine ⟨[], key, rest, rfl, rfl, .inr (.inl hpassed), ?_⟩
        rw [← Option.some.inj h, faultOf, if_neg hkept]
      · next hnew =>
        obtain ⟨before, faulty, after, rfl, hbefore, hfault, rfl⟩ := ih h
        refine ⟨key :: before, faulty, after, rfl, ?_, ?_, rfl⟩
        · rw [keyFault?, if_neg hkept, if_neg hnew, hbefore]
        · rw [List.mem_cons] at hfault
          rw [List.map_cons, List.mem_cons]
          exact hfault.imp_right fun hrepeated ↦ or_left_comm.mp (or_assoc.mp hrepeated)

/-- A fault of the scan is that of the first faulty position. -/
theorem isLeast_of_keyFault? {index : String} {keys : List KeyColumn} {fault : IndexFault}
    (h : keyFault? index [] keys = some fault) :
    ∃ position key, IsLeast {place | FaultyAt keys place} position ∧
      keys[position]? = some key ∧ fault = faultOf index key := by
  obtain ⟨before, key, after, rfl, hbefore, hfault, rfl⟩ := keyFault?_eq_some h
  obtain ⟨hkept, hdistinct⟩ := keyFault?_eq_none_iff.mp hbefore
  have hfaulty : key.kept = some 0 ∨ key.id ∈ before.map KeyColumn.id := by
    simpa using hfault
  refine ⟨before.length, key, ?_, by simp, rfl⟩
  exact isLeast_faultyAt (fun key hkey ↦ (hkept key hkey).1) hdistinct hfaulty after

theorem fault?_eq_some_iff {decl : IndexDecl} {fault : IndexFault} :
    decl.fault? = some fault ↔
      (decl.keys = [] ∧ fault = .noKeys decl.name) ∨
        ∃ position key, IsLeast {place | FaultyAt decl.keys place} position ∧
          decl.keys[position]? = some key ∧ fault = faultOf decl.name key := by
  constructor
  · intro h
    unfold fault? at h
    split at h
    · next hnone => exact .inl ⟨hnone, (Option.some.inj h).symm⟩
    · exact .inr (isLeast_of_keyFault? h)
  · rintro (⟨hnone, rfl⟩ | ⟨position, key, hleast, hkey, rfl⟩)
    · exact if_pos hnone
    · -- A faulty position is told of, and two first ones are the same.
      have hne : decl.keys ≠ [] := List.ne_nil_of_mem (List.mem_of_getElem? hkey)
      have hscan : decl.fault? = keyFault? decl.name [] decl.keys := if_neg hne
      cases hfault : decl.fault? with
      | none =>
        have hwell := fault?_eq_none_iff.mp hfault
        exact absurd hleast.1 (not_faultyAt hwell.kept hwell.distinct position)
      | some fault =>
        rw [hscan] at hfault
        obtain ⟨other, key', hother, hkey', rfl⟩ := isLeast_of_keyFault? hfault
        obtain rfl : position = other := hleast.unique hother
        obtain rfl : key = key' := Option.some.inj (hkey.symm.trans hkey')
        rfl

end IndexDecl

/-! ## Acceptance -/

namespace Index

/-- A declaration is kept as it is. -/
theorem ofDecl_eq_ok_iff {decl : IndexDecl} {index : Index} :
    ofDecl decl = .ok index ↔ index.toIndexDecl = decl := by
  constructor
  · intro h
    unfold ofDecl at h
    split at h
    · rw [← Except.ok.inj h]
    · cases h
  · rintro rfl
    have hnone := IndexDecl.fault?_eq_none_iff.mpr index.wellFormed
    unfold ofDecl
    split
    · rfl
    · next hsome =>
      rw [hnone] at hsome
      cases hsome

theorem ofDecl_eq_error_iff {decl : IndexDecl} {fault : IndexFault} :
    ofDecl decl = .error fault ↔ decl.fault? = some fault := by
  unfold ofDecl
  split
  · next hnone => simp [hnone]
  · next hsome => simp [hsome]

/-- Accepted are the declarations with some keys, all of which keep something, over columns that are
all different; they are kept as they are.  Any other is refused for having no keys, or for its first
faulty position, by the name of the column there. -/
theorem ofDecl_accepts_exactly (decl : IndexDecl) :
    (∀ index, ofDecl decl = .ok index ↔ index.toIndexDecl = decl) ∧
      ((∃ index, ofDecl decl = .ok index) ↔
        decl.keys ≠ [] ∧ (∀ key ∈ decl.keys, key.kept ≠ some 0) ∧
          (decl.keys.map KeyColumn.id).Nodup) ∧
        ∀ fault, ofDecl decl = .error fault ↔
          (decl.keys = [] ∧ fault = .noKeys decl.name) ∨
            ∃ position key, IsLeast {place | IndexDecl.FaultyAt decl.keys place} position ∧
              decl.keys[position]? = some key ∧ fault = IndexDecl.faultOf decl.name key := by
  refine ⟨fun index ↦ ofDecl_eq_ok_iff, ?_, fun fault ↦ ?_⟩
  · constructor
    · rintro ⟨index, hindex⟩
      obtain rfl := ofDecl_eq_ok_iff.mp hindex
      exact ⟨index.wellFormed.nonempty, index.wellFormed.kept, index.wellFormed.distinct⟩
    · rintro ⟨hne, hkept, hdistinct⟩
      exact ⟨⟨decl, hne, hkept, hdistinct⟩, ofDecl_eq_ok_iff.mpr rfl⟩
  · rw [ofDecl_eq_error_iff, IndexDecl.fault?_eq_some_iff]

/-- A key that repeats a column and keeps nothing, before another key that repeats it. -/
example :
    let column : Column := ⟨1, "a", .plain .int⟩
    IndexDecl.fault? ⟨1, "ix", [⟨column, none⟩, ⟨column, some 0⟩, ⟨column, none⟩], false, none⟩ =
      some (.emptyKey "ix" "a") := by
  decide

end Index

end IndexAccess
