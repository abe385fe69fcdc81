import IndexAccess.Proofs.BoundColumns.Dominance
import IndexAccess.Proofs.Lifecycle.Representation
import Mathlib.Data.List.Induction

/-!
# How much of its index a path has bound

The conditions of a path stand at the first keys of its index, so the columns bound are known from
their number.  No column occurs in two keys; hence a path with more conditions has bound more
columns than another over the same index, and the columns of both are kept with the same lengths.
Two such paths can always be compared, by the number of their conditions.
-/

namespace IndexAccess

namespace BoundColumns

variable {column : ColumnId} {kept : KeptLength}

/-! ## Look-ups in a list of pairs -/

theorem lookup_cons_eq_ite (entry : ColumnId × KeptLength) (rest : List (ColumnId × KeptLength))
    (column : ColumnId) :
    (entry :: rest).lookup column =
      if column = entry.1 then some entry.2 else rest.lookup column := by
  obtain ⟨first, length⟩ := entry
  rw [List.lookup_cons]
  split
  · next hsame => rw [if_pos (eq_of_beq hsame)]
  · next hother => rw [if_neg (ne_of_beq_false hother)]

theorem get?_insert (bound : BoundColumns) (added : ColumnId) (length : KeptLength)
    (column : ColumnId) :
    (bound.insert added length).get? column =
      if column = added then some length else bound.get? column := by
  unfold get? insert
  dsimp only
  induction bound.entries with
  | nil => exact lookup_cons_eq_ite _ _ _
  | cons entry rest ih =>
    unfold insertEntry
    split
    · exact lookup_cons_eq_ite _ _ _
    · split
      · next heq =>
        rw [lookup_cons_eq_ite, lookup_cons_eq_ite, ← heq]
        split <;> rfl
      · next hne =>
        rw [lookup_cons_eq_ite, lookup_cons_eq_ite, ih]
        by_cases hcolumn : column = added
        · subst hcolumn
          rw [if_neg hne, if_pos rfl, if_pos rfl]
        · rw [if_neg hcolumn, if_neg hcolumn]

theorem ofList_append (pairs : List (ColumnId × KeptLength)) (pair : ColumnId × KeptLength) :
    ofList (pairs ++ [pair]) = (ofList pairs).insert pair.1 pair.2 :=
  List.foldl_append

/-- Where no column occurs twice, no pair takes the place of another. -/
theorem get?_ofList_eq_some_iff {pairs : List (ColumnId × KeptLength)}
    (h : (pairs.map Prod.fst).Nodup) :
    (ofList pairs).get? column = some kept ↔ (column, kept) ∈ pairs := by
  induction pairs using List.reverseRecOn with
  | nil => simp [ofList, get?, empty]
  | append_singleton pairs pair ih =>
    rw [List.map_append, List.nodup_append] at h
    obtain ⟨hpairs, -, hnew⟩ := h
    obtain ⟨added, length⟩ := pair
    rw [ofList_append, get?_insert, List.mem_append, List.mem_singleton, Prod.mk.injEq]
    by_cases hadded : column = added
    · have habsent : (column, kept) ∉ pairs := fun hmem ↦
        hnew column (List.mem_map_of_mem hmem) added (List.mem_singleton.mpr rfl) hadded
      simp [hadded ▸ habsent, hadded, eq_comm]
    · simp [hadded, ih hpairs]

/-! ## Keys bound -/

/-- The columns of some keys, each with the length that its key keeps. -/
def ofKeys (keys : List KeyColumn) : BoundColumns :=
  ofList (keys.map fun key ↦ (key.id, key.kept))

theorem get?_ofKeys_eq_some_iff {keys : List KeyColumn} (h : (keys.map KeyColumn.id).Nodup) :
    (ofKeys keys).get? column = some kept ↔ ∃ key ∈ keys, key.id = column ∧ key.kept = kept := by
  unfold ofKeys
  rw [get?_ofList_eq_some_iff (by rwa [List.map_map])]
  simp

/-- Further keys add columns and leave those bound before as they are. -/
theorem ofKeys_lt_append {keys more : List KeyColumn} (h : ((keys ++ more).map KeyColumn.id).Nodup)
    (hmore : more ≠ []) : ofKeys keys < ofKeys (keys ++ more) := by
  have hkeys : (keys.map KeyColumn.id).Nodup := h.sublist (by simp)
  rw [lt_iff_le_not_ge]
  constructor
  · rw [le_iff_reach_le]
    intro column
    cases hget : (ofKeys keys).get? column with
    | none =>
      rw [reach_eq_bot_iff.mpr hget]
      exact bot_le
    | some kept =>
      obtain ⟨key, hkey, hcolumn⟩ := (get?_ofKeys_eq_some_iff hkeys).mp hget
      have hlater : (ofKeys (keys ++ more)).get? column = some kept :=
        (get?_ofKeys_eq_some_iff h).mpr ⟨key, List.mem_append_left more hkey, hcolumn⟩
      rw [reach_of_get? hget, reach_of_get? hlater]
  · rw [not_le_iff]
    obtain ⟨key, rest, rfl⟩ := List.exists_cons_of_ne_nil hmore
    refine ⟨key.id, ?_⟩
    have hnone : (ofKeys keys).get? key.id = none := by
      rw [Option.eq_none_iff_forall_ne_some]
      intro kept hget
      obtain ⟨earlier, hearlier, hid, -⟩ := (get?_ofKeys_eq_some_iff hkeys).mp hget
      rw [List.map_append, List.nodup_append] at h
      exact h.2.2 earlier.id (List.mem_map_of_mem hearlier) key.id List.mem_cons_self hid
    have hbound : (ofKeys (keys ++ key :: rest)).get? key.id = some key.kept :=
      (get?_ofKeys_eq_some_iff h).mpr
        ⟨key, List.mem_append_right keys List.mem_cons_self, rfl, rfl⟩
    rw [reach_eq_bot_iff.mpr hnone, reach_of_get? hbound]
    exact WithBot.bot_lt_coe _

theorem ofKeys_take_lt {keys : List KeyColumn} (h : (keys.map KeyColumn.id).Nodup) {few many : Nat}
    (hlt : few < many) (hmany : many ≤ keys.length) :
    ofKeys (keys.take few) < ofKeys (keys.take many) := by
  obtain ⟨more, rfl⟩ := Nat.exists_eq_add_of_le hlt.le
  have htake : keys.take (few + more) = keys.take few ++ (keys.drop few).take more :=
    List.take_add
  rw [htake]
  apply ofKeys_lt_append
  · rw [← htake]
    exact h.sublist ((List.take_sublist _ _).map _)
  · rw [← List.length_pos_iff, List.length_take, List.length_drop]
    omega

/-- The first keys of an index compare by their number. -/
theorem compare?_ofKeys_take {keys : List KeyColumn} (h : (keys.map KeyColumn.id).Nodup)
    {first second : Nat} (hfirst : first ≤ keys.length) (hsecond : second ≤ keys.length) :
    (ofKeys (keys.take first)).compare? (ofKeys (keys.take second)) =
      some (compare first second) := by
  rcases Nat.lt_trichotomy first second with hlt | rfl | hgt
  · rw [Nat.compare_eq_lt.mpr hlt, compare?_eq_some_lt_iff]
    exact ofKeys_take_lt h hlt hsecond
  · rw [Nat.compare_eq_eq.mpr rfl, compare?_eq_some_eq_iff]
  · rw [Nat.compare_eq_gt.mpr hgt, compare?_eq_some_gt_iff]
    exact ofKeys_take_lt h hgt hfirst

end BoundColumns

namespace Path

variable {path other : Path} {filters others : List Expr} {index : Index}

theorem boundColumns_eq_ofKeys (h : path.conditions.length ≤ path.keys.length) :
    path.boundColumns = .ofKeys (path.keys.take path.conditions.length) := by
  have hzip : path.keys.zip path.conditions =
      (path.keys.take path.conditions.length).zip path.conditions := by
    rw [List.zip_eq_zip_take_min, Nat.min_eq_right h, List.take_length]
  have hlength : (path.keys.take path.conditions.length).length ≤ path.conditions.length :=
    List.length_take_le _ _
  unfold boundColumns BoundColumns.ofKeys
  rw [hzip]
  calc BoundColumns.ofList (((path.keys.take path.conditions.length).zip path.conditions).map _)
    _ = BoundColumns.ofList ((((path.keys.take path.conditions.length).zip path.conditions).map
          Prod.fst).map fun key ↦ (key.id, key.kept)) := by
      rw [List.map_map]
      rfl
    _ = _ := by
      rw [List.map_fst_zip hlength]

theorem compare?_boundColumns (h : Reachable filters path) (hother : Reachable others other)
    (hindex : path.index? = some index) (hindex' : other.index? = some index) :
    path.boundColumns.compare? other.boundColumns =
      some (compare path.conditions.length other.conditions.length) := by
  have hkeys := keys_of_index? hindex
  have hkeys' := keys_of_index? hindex'
  have hconditions := h.consistent.conditions_le
  have hconditions' := hother.consistent.conditions_le
  rw [boundColumns_eq_ofKeys hconditions, boundColumns_eq_ofKeys hconditions', hkeys, hkeys']
  rw [hkeys] at hconditions
  rw [hkeys'] at hconditions'
  exact BoundColumns.compare?_ofKeys_take index.wellFormed.distinct hconditions hconditions'

/-- An extension adds as many conditions as it tells, over the same index. -/
theorem extended_of_extendSeek {compatible : Compatibility} {bound : Nat}
    (h : (path.extendSeek compatible).result = .ok bound) :
    let later := path.after (.extendSeek compatible)
    later.index? = path.index? ∧ later.conditions.length = path.conditions.length + bound := by
  simp only [after]
  obtain ⟨error, hrefused⟩ | ⟨_, -, -, -, hskipped⟩ | ⟨_, -, -, -, -, hextended⟩ :=
    path.extendSeek_cases compatible
  · rw [hrefused] at h
    cases h
  · rw [hskipped] at h ⊢
    obtain rfl : 0 = bound := Except.ok.inj h
    exact ⟨rfl, rfl⟩
  · rw [hextended] at h ⊢
    obtain rfl := Except.ok.inj h
    exact ⟨rfl, List.length_append⟩

/-- Two paths over one index can always be compared, by the number of their conditions.  So an
extended seek covers what it covered before if it tells that no key was bound, and else more. -/
theorem coverage_by_conditions (h : Reachable filters path) (hother : Reachable others other)
    (hindex : path.index? = some index) (hindex' : other.index? = some index) :
    path.boundColumns.compare? other.boundColumns =
        some (compare path.conditions.length other.conditions.length) ∧
      ∀ compatible bound, (path.extendSeek compatible).result = .ok bound →
        (path.extendSeek compatible).state.boundColumns.compare? path.boundColumns =
          some (if bound = 0 then .eq else .gt) := by
  refine ⟨compare?_boundColumns h hother hindex hindex', ?_⟩
  intro compatible bound hbound
  obtain ⟨hsame, hlength⟩ := extended_of_extendSeek hbound
  have hcompare : (path.after (.extendSeek compatible)).boundColumns.compare? path.boundColumns =
      some (compare (path.conditions.length + bound) path.conditions.length) := by
    rw [← hlength]
    exact compare?_boundColumns (h.after _) h (hsame.trans hindex) hindex
  refine hcompare.trans (congrArg some ?_)
  split
  · next hnone => exact Nat.compare_eq_eq.mpr (by omega)
  · next hsome => exact Nat.compare_eq_gt.mpr (by omega)

theorem coverage_by_conditions_partialIndex :
    let path := Path.index partialIndex partialFilters
    let later := path.after (.extendSeek .exact)
    Reachable partialFilters path ∧ Reachable partialFilters later ∧
      path.index? = some partialIndex ∧ later.index? = some partialIndex ∧
        path.boundColumns.compare? later.boundColumns =
          some (compare path.conditions.length later.conditions.length) ∧
        ∀ compatible bound, (path.extendSeek compatible).result = .ok bound →
          (path.extendSeek compatible).state.boundColumns.compare? path.boundColumns =
            some (if bound = 0 then .eq else .gt) := by
  intro path later
  have hpath : Reachable partialFilters path := .index partialIndex partialFilters
  have hlater : Reachable partialFilters later := hpath.after _
  exact ⟨hpath, hlater, rfl, rfl, coverage_by_conditions hpath hlater rfl rfl⟩

/-- Both columns are bound, the second one by a part of its value. -/
example :
    let path := Path.index partialIndex partialFilters
    (path.extendSeek .exact).state.boundColumns.entries = [(1, none), (2, some 10)] := by
  decide

end Path

end IndexAccess
