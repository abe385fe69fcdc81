import IndexAccess.BoundColumns
import Mathlib.Data.List.Sort
import Mathlib.Order.WithBot

/-!
# Dominance of bound columns

One map dominates another when it keeps at least as much of every column.  A column that is not
bound counts as less than every length, and the whole value as more.  This is a partial order, point
by point in the columns, and two maps that dominate each other are the same.

A comparison does not look at all columns.  It goes over the columns of the left side and then only
asks whether the right side has others.  That is enough: a column that one side keeps more of is
bound on that side.
-/

namespace IndexAccess.BoundColumns

variable {left right : BoundColumns} {column : ColumnId} {kept : KeptLength}

/-! ## Look-ups -/

theorem nodup_entries (bound : BoundColumns) : (bound.entries.map Prod.fst).Nodup :=
  bound.ascending.imp fun hlt ↦ UInt64.ne_of_lt hlt

theorem get?_eq_some_iff {bound : BoundColumns} :
    bound.get? column = some kept ↔ (column, kept) ∈ bound.entries := by
  unfold get?
  rw [List.lookup_eq_some_iff]
  constructor
  · rintro ⟨before, after, hentries, -⟩
    rw [hentries]
    exact List.mem_append_right _ List.mem_cons_self
  · intro hmem
    obtain ⟨before, after, hentries⟩ := List.append_of_mem hmem
    refine ⟨before, after, hentries, ?_⟩
    intro entry hentry
    have hnodup := bound.nodup_entries
    rw [hentries, List.map_append, List.map_cons] at hnodup
    have hne := (List.nodup_append.mp hnodup).2.2 entry.1 (List.mem_map_of_mem hentry) column
      List.mem_cons_self
    simpa using Ne.symm hne

/-- Maps with the same look-ups are the same. -/
theorem eq_of_get?_eq (h : ∀ column, left.get? column = right.get? column) : left = right := by
  have hmem : ∀ entry, entry ∈ left.entries ↔ entry ∈ right.entries := by
    rintro ⟨column, kept⟩
    rw [← get?_eq_some_iff, ← get?_eq_some_iff, h]
  have hleft := List.pairwise_map.mp left.ascending
  have hright := List.pairwise_map.mp right.ascending
  have : Std.Irrefl fun first second : ColumnId × KeptLength ↦ first.1 < second.1 :=
    ⟨fun entry ↦ UInt64.lt_irrefl entry.1⟩
  have : Std.Antisymm fun first second : ColumnId × KeptLength ↦ first.1 < second.1 :=
    ⟨fun _ _ hlt hgt ↦ absurd hgt (UInt64.lt_asymm hlt)⟩
  have hentries : left.entries = right.entries := hleft.eq_of_mem_iff hright (by simpa using hmem)
  obtain ⟨entries, _⟩ := left
  obtain ⟨entries', _⟩ := right
  obtain rfl : entries = entries' := hentries
  rfl

/-! ## The order -/

/-- How much of a value is kept: a number of characters, or the whole of it above all numbers. -/
def extent : KeptLength → WithTop ℕ
  | some length => WithTop.some length.toNat
  | none => ⊤

/-- How much of a column is kept; what is not bound stands below all that is. -/
def reach (bound : BoundColumns) (column : ColumnId) : WithBot (WithTop ℕ) :=
  (bound.get? column).elim ⊥ fun kept ↦ extent kept

theorem reach_of_get? {bound : BoundColumns} (h : bound.get? column = some kept) :
    bound.reach column = extent kept := by
  unfold reach
  rw [h]
  rfl

theorem reach_eq_bot_iff {bound : BoundColumns} :
    bound.reach column = ⊥ ↔ bound.get? column = none := by
  unfold reach
  cases bound.get? column <;> simp

theorem extent_injective : Function.Injective extent := by
  intro first second h
  cases first with
  | none =>
    cases second with
    | none => rfl
    | some => simp [extent] at h
  | some =>
    cases second with
    | none => simp [extent] at h
    | some => simpa [extent, UInt32.toNat_inj] using h

theorem reach_injective : Function.Injective reach := by
  intro left right h
  apply eq_of_get?_eq
  intro column
  have hcolumn : left.reach column = right.reach column := congrFun h column
  cases hleft : left.get? column with
  | none =>
    rw [reach_eq_bot_iff.mpr hleft] at hcolumn
    exact (reach_eq_bot_iff.mp hcolumn.symm).symm
  | some kept =>
    cases hright : right.get? column with
    | none =>
      rw [reach_of_get? hleft, reach_eq_bot_iff.mpr hright] at hcolumn
      exact absurd hcolumn WithBot.coe_ne_bot
    | some other =>
      rw [reach_of_get? hleft, reach_of_get? hright, WithBot.coe_inj] at hcolumn
      rw [extent_injective hcolumn]

/-- Dominance: point by point in the columns. -/
instance : PartialOrder BoundColumns := PartialOrder.lift reach reach_injective

theorem le_iff_reach_le : left ≤ right ↔ ∀ column, left.reach column ≤ right.reach column := Iff.rfl

theorem rank_lt_rank_iff {first second : KeptLength} :
    rank first < rank second ↔ extent first < extent second := by
  cases first with
  | none =>
    cases second with
    | none => simp [rank, extent]
    | some length =>
      have := length.toNat_lt
      simp [rank, extent]
      omega
  | some length =>
    have := length.toNat_lt
    cases second with
    | none =>
      simp [rank, extent]
      omega
    | some => simp [rank, extent]

/-! ## The comparison -/

theorem left_note_iff {lead : Lead} {entry : ColumnId × KeptLength} :
    (lead.note right entry).left = true ↔
      lead.left = true ∨ right.reach entry.1 < extent entry.2 := by
  unfold Lead.note
  cases hget : right.get? entry.1 with
  | none => simp [reach_eq_bot_iff.mpr hget, WithBot.bot_lt_coe]
  | some kept =>
    rw [reach_of_get? hget, WithBot.coe_lt_coe, ← rank_lt_rank_iff]
    dsimp only
    split
    · next hmore => simp [Nat.compare_eq_gt.mp hmore]
    · next hless => simp [(Nat.compare_eq_lt.mp hless).not_gt]
    · next hsame => simp [Nat.compare_eq_eq.mp hsame]

theorem right_note_iff {lead : Lead} {entry : ColumnId × KeptLength} :
    (lead.note right entry).right = true ↔
      lead.right = true ∨ extent entry.2 < right.reach entry.1 := by
  unfold Lead.note
  cases hget : right.get? entry.1 with
  | none => simp [reach_eq_bot_iff.mpr hget]
  | some kept =>
    rw [reach_of_get? hget, WithBot.coe_lt_coe, ← rank_lt_rank_iff]
    dsimp only
    split
    · next hmore => simp [(Nat.compare_eq_gt.mp hmore).not_gt]
    · next hless => simp [Nat.compare_eq_lt.mp hless]
    · next hsame => simp [Nat.compare_eq_eq.mp hsame]

/-- A flag that each entry may raise is up at the end if it was up before or an entry raised it. -/
theorem flag_foldl_iff (flag : Lead → Bool) (note : Lead → ColumnId × KeptLength → Lead)
    {raises : ColumnId × KeptLength → Prop}
    (h : ∀ lead entry, flag (note lead entry) = true ↔ flag lead = true ∨ raises entry)
    (entries : List (ColumnId × KeptLength)) (lead : Lead) :
    flag (entries.foldl note lead) = true ↔
      flag lead = true ∨ ∃ entry ∈ entries, raises entry := by
  induction entries generalizing lead with
  | nil => simp
  | cons entry entries ih =>
    rw [List.foldl_cons, ih, h, List.exists_mem_cons_iff, or_assoc]

/-- A property that no unbound column has is looked for among the entries. -/
theorem exists_entry_iff {bound : BoundColumns} (holds : ColumnId → WithBot (WithTop ℕ) → Prop)
    (h : ∀ column, ¬holds column ⊥) :
    (∃ entry ∈ bound.entries, holds entry.1 (extent entry.2)) ↔
      ∃ column, holds column (bound.reach column) := by
  constructor
  · rintro ⟨⟨column, kept⟩, hmem, hholds⟩
    refine ⟨column, ?_⟩
    rw [reach_of_get? (get?_eq_some_iff.mpr hmem)]
    exact hholds
  · rintro ⟨column, hholds⟩
    cases hget : bound.get? column with
    | none =>
      rw [reach_eq_bot_iff.mpr hget] at hholds
      exact absurd hholds (h column)
    | some kept =>
      rw [reach_of_get? hget] at hholds
      exact ⟨(column, kept), get?_eq_some_iff.mp hget, hholds⟩

theorem left_scan_iff :
    (left.entries.foldl (Lead.note right) ⟨false, false⟩).left = true ↔
      ∃ column, right.reach column < left.reach column := by
  rw [flag_foldl_iff Lead.left (Lead.note right) fun _ _ ↦ left_note_iff,
    or_iff_right Bool.false_ne_true]
  exact exists_entry_iff (fun column extent ↦ right.reach column < extent) fun _ ↦ not_lt_bot

theorem right_scan_iff :
    (left.entries.foldl (Lead.note right) ⟨false, false⟩).right = true ↔
      ∃ column, ⊥ < left.reach column ∧ left.reach column < right.reach column := by
  rw [flag_foldl_iff Lead.right (Lead.note right) fun _ _ ↦ right_note_iff,
    or_iff_right Bool.false_ne_true,
    ← exists_entry_iff (fun column extent ↦ ⊥ < extent ∧ extent < right.reach column)
      fun _ hbot ↦ not_lt_bot hbot.1]
  simp [WithBot.bot_lt_coe]

theorem lacks_iff :
    (right.entries.any fun entry ↦ (left.get? entry.1).isNone) = true ↔
      ∃ column, left.reach column = ⊥ ∧ ⊥ < right.reach column := by
  rw [← exists_entry_iff (fun column extent ↦ left.reach column = ⊥ ∧ ⊥ < extent)
    fun _ hbot ↦ not_lt_bot hbot.2]
  simp [reach_eq_bot_iff, WithBot.bot_lt_coe]

theorem not_le_iff : ¬left ≤ right ↔ ∃ column, right.reach column < left.reach column := by
  rw [le_iff_reach_le, not_forall]
  exact exists_congr fun column ↦ not_le

theorem left_lead_iff : (left.lead right).left = true ↔ ¬left ≤ right := by
  rw [not_le_iff, ← left_scan_iff]
  unfold lead
  dsimp only
  split <;> rfl

/-- What the right side keeps more of is bound on the left and found there, or it is not bound on
the left and found by the question at the end. -/
theorem right_lead_iff : (left.lead right).right = true ↔ ¬right ≤ left := by
  have hlead : (left.lead right).right = true ↔
      (left.entries.foldl (Lead.note right) ⟨false, false⟩).right = true ∨
        (right.entries.any fun entry ↦ (left.get? entry.1).isNone) = true := by
    unfold lead
    dsimp only
    split
    · next hlacks => simp [hlacks]
    · next hlacks => simp [hlacks]
  rw [hlead, right_scan_iff, lacks_iff, not_le_iff, ← exists_or]
  apply exists_congr
  intro column
  rcases (bot_le : ⊥ ≤ left.reach column).eq_or_lt with hbot | hbound
  · simp [← hbot]
  · simp [hbound, hbound.ne']

/-! ## Its results -/

instance : DecidableLE BoundColumns := fun left right ↦
  decidable_of_iff ((left.lead right).left = false) (by
    rw [← not_iff_not, Bool.not_eq_false, left_lead_iff])

theorem compare?_eq (left right : BoundColumns) :
    left.compare? right =
      if left ≤ right then if right ≤ left then some .eq else some .lt
      else if right ≤ left then some .gt else none := by
  have hleft : (left.lead right).left = true ↔ ¬left ≤ right := left_lead_iff
  have hright : (left.lead right).right = true ↔ ¬right ≤ left := right_lead_iff
  unfold compare?
  generalize left.lead right = lead at hleft hright
  obtain ⟨_ | _, _ | _⟩ := lead
  all_goals
    simp only [Bool.false_eq_true, false_iff, true_iff, not_not] at hleft hright
    simp only [hleft, hright, if_true, if_false]

theorem compare?_eq_some_eq_iff : left.compare? right = some .eq ↔ left = right := by
  rw [compare?_eq, le_antisymm_iff (a := left)]
  by_cases hleft : left ≤ right <;> by_cases hright : right ≤ left <;> simp [hleft, hright]

theorem compare?_eq_some_lt_iff : left.compare? right = some .lt ↔ left < right := by
  rw [compare?_eq, lt_iff_le_not_ge]
  by_cases hleft : left ≤ right <;> by_cases hright : right ≤ left <;> simp [hleft, hright]

theorem compare?_eq_some_gt_iff : left.compare? right = some .gt ↔ right < left := by
  rw [compare?_eq, lt_iff_le_not_ge]
  by_cases hleft : left ≤ right <;> by_cases hright : right ≤ left <;> simp [hleft, hright]

theorem compare?_eq_none_iff :
    left.compare? right = none ↔ ¬left ≤ right ∧ ¬right ≤ left := by
  rw [compare?_eq]
  by_cases hleft : left ≤ right <;> by_cases hright : right ≤ left <;> simp [hleft, hright]

theorem compare?_swap (left right : BoundColumns) :
    right.compare? left = (left.compare? right).map Ordering.swap := by
  rw [compare?_eq, compare?_eq]
  by_cases hleft : left ≤ right <;> by_cases hright : right ≤ left <;> simp [hleft, hright]

/-- The comparison finds the left side to dominate the right one. -/
def AtLeast (left right : BoundColumns) : Prop :=
  left.compare? right = some .gt ∨ left.compare? right = some .eq

theorem atLeast_iff : left.AtLeast right ↔ right ≤ left := by
  unfold AtLeast
  rw [compare?_eq_some_gt_iff, compare?_eq_some_eq_iff, eq_comm, le_iff_lt_or_eq]

/-- The comparison is pointwise dominance. -/
theorem compare?_dominance :
    (∀ left right : BoundColumns,
      (left.compare? right = some .eq ↔ left = right) ∧
        (left.compare? right = some .gt ↔
          left ≠ right ∧ ∀ column, right.reach column ≤ left.reach column) ∧
        (left.compare? right = some .lt ↔
          left ≠ right ∧ ∀ column, left.reach column ≤ right.reach column) ∧
        (left.compare? right = none ↔ left ≠ right ∧
          (¬∀ column, right.reach column ≤ left.reach column) ∧
            ¬∀ column, left.reach column ≤ right.reach column) ∧
        right.compare? left = (left.compare? right).map Ordering.swap) ∧
      IsPartialOrder BoundColumns AtLeast := by
  refine ⟨fun left right ↦ ⟨compare?_eq_some_eq_iff, ?_, ?_, ?_, compare?_swap left right⟩, ?_⟩
  · rw [compare?_eq_some_gt_iff, lt_iff_le_and_ne, ne_comm, and_comm]
    rfl
  · rw [compare?_eq_some_lt_iff, lt_iff_le_and_ne, and_comm]
    rfl
  · rw [compare?_eq_none_iff, and_comm]
    refine ⟨fun hnone ↦ ⟨?_, hnone⟩, And.right⟩
    rintro rfl
    exact hnone.1 le_rfl
  · have hle : AtLeast = fun left right : BoundColumns ↦ right ≤ left := by
      funext left right
      exact propext atLeast_iff
    rw [hle]
    exact inferInstanceAs (IsPartialOrder BoundColumns (· ≥ ·))

/-- Each side keeps more of one column than the other side. -/
example :
    (ofList [(1, none), (2, some 4)]).compare? (ofList [(1, some 0), (2, some 5)]) = none := by
  decide

end IndexAccess.BoundColumns
