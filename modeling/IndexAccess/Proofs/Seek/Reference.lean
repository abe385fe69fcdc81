import IndexAccess.Proofs.Seek.Walk
import Mathlib.Order.Bounds.Basic

/-!
# The walk without open filters

What a walk binds at a key can be said without following the walk.  A filter is usable at two keys
only if they have the same column, so a filter settled at one key is missed at the keys of the same
column and nowhere else: a key is bound to the filter whose number, among all those usable at it,
is the number of whole keys of its column passed before.  The walk ends where that number is out of
range, and what stays open are the filters at positions chosen at no whole key.
-/

namespace IndexAccess.Seek

variable {compatible : Compatibility} {all : List OpenFilter}

/-- The number of keys passed that settle a filter for a column. -/
def settlers (passed : List KeyColumn) (target : Column) : Nat :=
  passed.countP fun key ↦ key.isWhole && key.column.sameAs target

/-- The filters open after some keys: for every column the first usable ones are gone, one for each
whole key of that column. -/
def OpenAfter (compatible : Compatibility) (all : List OpenFilter) (passed : List KeyColumn)
    (filters : List OpenFilter) : Prop :=
  ∀ target, usableFilters compatible target filters =
    (usableFilters compatible target all).drop (settlers passed target)

/-- The filter for key number `i` when `passed` comes before the keys. -/
def choice? (compatible : Compatibility) (all : List OpenFilter) (passed keys : List KeyColumn)
    (i : Nat) : Option OpenFilter :=
  keys[i]?.bind fun key ↦
    (usableFilters compatible key.column all)[settlers (passed ++ keys.take i) key.column]?

theorem choice?_cons_succ (passed keys : List KeyColumn) (key : KeyColumn) (i : Nat) :
    choice? compatible all passed (key :: keys) (i + 1) =
      choice? compatible all (passed ++ [key]) keys i := by
  simp only [choice?, List.getElem?_cons_succ, List.take_succ_cons, List.append_assoc,
    List.singleton_append]

/-! ## The open filters along a walk -/

theorem openAfter_nil : OpenAfter compatible all [] all := by
  intro target
  rfl

theorem OpenAfter.pick {passed : List KeyColumn} {filters others : List OpenFilter}
    {key : KeyColumn} {found : OpenFilter} (h : OpenAfter compatible all passed filters)
    (hfound : (pick compatible key.column filters).found = some (found, others)) :
    OpenAfter compatible all (passed ++ [key]) (if key.isWhole then others else filters) := by
  intro target
  have htaken := takesFirst_of_pick hfound
  have hcount : settlers (passed ++ [key]) target =
      settlers passed target + if key.isWhole && key.column.sameAs target then 1 else 0 := by
    simp only [settlers, List.countP_append, List.countP_singleton]
  cases hwhole : key.isWhole with
  | false =>
    rw [hcount, hwhole, Bool.false_and, if_neg Bool.false_ne_true, if_neg Bool.false_ne_true]
    exact h target
  | true =>
    rw [hcount, hwhole, Bool.true_and, if_pos rfl]
    cases hsame : key.column.sameAs target with
    | true =>
      -- The filter settled heads the usable ones of the column, so one more of them is gone.
      have hcongr : usableFilters compatible target = usableFilters compatible key.column := by
        funext filters
        simp only [usableFilters, allows_congr hsame]
      have hhead := h target
      rw [hcongr, htaken.usableFilters_self] at hhead
      rw [if_pos rfl, hcongr, ← List.drop_drop, ← hhead, List.drop_one, List.tail_cons]
    | false =>
      have hnot : allows compatible target found.1 = false := by
        by_contra hallows
        rw [Bool.not_eq_false] at hallows
        rw [sameAs_of_allows htaken.allows_found hallows] at hsame
        exact Bool.noConfusion hsame
      rw [if_neg Bool.false_ne_true, ← htaken.usableFilters_of_not hnot]
      exact h target

/-- Every key is bound to the filter chosen for it, and nothing is chosen for the next one. -/
theorem walk_bindings_getElem? (compatible : Compatibility) (all : List OpenFilter) (slot : Nat)
    (keys : List KeyColumn) (filters : List OpenFilter) :
    ∀ passed, OpenAfter compatible all passed filters →
      ∀ i ≤ (walk compatible slot keys filters).bindings.length,
        ((walk compatible slot keys filters).bindings.map Binding.filter)[i]? =
          choice? compatible all passed keys i := by
  fun_induction walk compatible slot keys filters with
  | case1 =>
    intro passed h i hi
    simp [choice?]
  | case2 slot key keys filters picked hnone =>
    intro passed h i hi
    obtain rfl : i = 0 := Nat.le_zero.mp hi
    have hempty := pick_found_eq_none_iff.mp hnone
    rw [h key.column, List.drop_eq_nil_iff] at hempty
    simpa [choice?] using hempty
  | case3 slot key keys filters picked found others hfound later ih =>
    intro passed h i hi
    cases i with
    | zero =>
      have hhead := congrArg List.head? (h key.column)
      rw [(takesFirst_of_pick hfound).usableFilters_self, List.head?_drop] at hhead
      simpa [choice?] using hhead
    | succ i =>
      rw [choice?_cons_succ, List.map_cons, List.getElem?_cons_succ]
      exact ih _ (h.pick hfound) i (Nat.le_of_succ_le_succ hi)

/-- Where no position occurs twice, what stays open are the filters at positions not settled. -/
theorem walk_residual_eq_filter {slot : Nat} {keys : List KeyColumn} {filters : List OpenFilter}
    (hnodup : (filters.map Prod.snd).Nodup) :
    let w := walk compatible slot keys filters
    w.residual = filters.filter fun filter ↦ decide (filter.2 ∉ w.settled.map Prod.snd) := by
  fun_induction walk compatible slot keys filters with
  | case1 => simp [Walk.settled]
  | case2 => simp [Walk.settled]
  | case3 slot key keys filters picked found others hfound later ih =>
    have htaken := takesFirst_of_pick hfound
    cases hwhole : key.isWhole with
    | false =>
      simp only [hwhole, Bool.false_eq_true, if_false] at ih
      simpa [Walk.settled, hwhole, later] using ih hnodup
    | true =>
      have hothers : (others.map Prod.snd).Nodup := hnodup.sublist (htaken.sublist.map Prod.snd)
      have hlater : later.residual = (if key.isWhole then others else filters).filter
          fun filter ↦ decide (filter.2 ∉ later.settled.map Prod.snd) :=
        ih (by rwa [hwhole, if_pos rfl])
      rw [hwhole, if_pos rfl] at hlater
      intro w
      have hsettled : w.settled = found :: later.settled := by
        simp only [w, Walk.settled, List.filter_cons, hwhole, if_true, List.map_cons]
      calc
        later.residual = others.filter _ := hlater
        _ = (filters.filter fun filter ↦ decide (filter.2 ≠ found.2)).filter _ := by
          rw [htaken.filter_position_ne hnodup]
        _ = filters.filter fun filter ↦ decide (filter.2 ∉ w.settled.map Prod.snd) := by
          rw [List.filter_filter, hsettled]
          apply List.filter_congr
          intro filter _
          rw [Bool.eq_iff_iff, Bool.and_eq_true, decide_eq_true_iff, decide_eq_true_iff,
            decide_eq_true_iff, List.map_cons, List.mem_cons, not_or, and_comm]

/-! ## The closed form -/

section

variable (compatible) (keys : List KeyColumn) (filters : List Expr) (prefixCount : Nat)

/-- The filters usable at the key in a slot of the index, with their positions. -/
def usableAt (slot : Nat) : List OpenFilter :=
  keys[slot]?.elim [] fun key ↦ usableFilters compatible key.column filters.zipIdx

/-- The number of whole keys between the prefix and a slot that have the column of the slot. -/
def settledBefore (slot : Nat) : Nat :=
  keys[slot]?.elim 0 fun key ↦ settlers ((keys.take slot).drop prefixCount) key.column

/-- The positions chosen at the whole keys among the first `bound` keys after the prefix. -/
def settledPositions (bound : Nat) : List Nat :=
  ((List.range' prefixCount bound).filter fun slot ↦ keys[slot]?.any KeyColumn.isWhole).filterMap
    fun slot ↦ (usableAt compatible keys filters slot)[settledBefore keys prefixCount slot]?.map
      Prod.snd

/-- An extension said without the walk: it binds as many keys as can be bound without a gap, each
to the filter of its number, and leaves the filters settled at none of them. -/
structure Follows (extension : Extension) : Prop where
  length : IsGreatest
    {n | prefixCount + n ≤ keys.length ∧ ∀ slot, prefixCount ≤ slot → slot < prefixCount + n →
      settledBefore keys prefixCount slot < (usableAt compatible keys filters slot).length}
    extension.access.length
  access : ∀ slot, prefixCount ≤ slot → slot < prefixCount + extension.access.length →
    extension.access[slot - prefixCount]? =
      (usableAt compatible keys filters slot)[settledBefore keys prefixCount slot]?.map Prod.fst
  residual : extension.residual =
    (filters.zipIdx.filter fun filter ↦ decide (filter.2 ∉
      settledPositions compatible keys filters prefixCount extension.access.length)).map Prod.fst

theorem choice?_drop (i : Nat) :
    choice? compatible filters.zipIdx [] (keys.drop prefixCount) i =
      (usableAt compatible keys filters (prefixCount + i))[
        settledBefore keys prefixCount (prefixCount + i)]? := by
  unfold choice? usableAt settledBefore
  rw [List.getElem?_drop, List.nil_append, List.take_drop]
  cases keys[prefixCount + i]? with
  | none => simp
  | some key => rfl

/-- A binding has the key of its slot and the filter chosen there. -/
theorem walkFrom_bindings_getElem? {i : Nat} {binding : Binding}
    (h : (walkFrom compatible keys filters prefixCount).bindings[i]? = some binding) :
    keys[prefixCount + i]? = some binding.key ∧
      (usableAt compatible keys filters (prefixCount + i))[
        settledBefore keys prefixCount (prefixCount + i)]? = some binding.filter := by
  obtain ⟨hi, _⟩ := List.getElem?_eq_some_iff.mp h
  constructor
  · have hkeys := congrArg (fun bound ↦ bound[i]?)
      (map_key_walk_bindings compatible prefixCount (keys.drop prefixCount) filters.zipIdx)
    change (List.map _ (walkFrom compatible keys filters prefixCount).bindings)[i]? =
      (List.take (walkFrom compatible keys filters prefixCount).bindings.length _)[i]? at hkeys
    rw [List.getElem?_map, h, List.getElem?_take_of_lt hi, List.getElem?_drop] at hkeys
    exact hkeys.symm
  · rw [← choice?_drop,
      ← walk_bindings_getElem? compatible _ prefixCount _ _ [] openAfter_nil i hi.le]
    change (List.map _ (walkFrom compatible keys filters prefixCount).bindings)[i]? = _
    rw [List.getElem?_map, h]
    rfl

/-- Each condition of an extension allows a seek on the column of the key that it stands for. -/
theorem judge_of_getElem?_extend_access {i : Nat} {condition : Expr}
    (h : (extend compatible keys filters prefixCount).access[i]? = some condition) :
    ∃ key, keys[prefixCount + i]? = some key ∧ judge compatible key.column condition = .usable := by
  let w := walkFrom compatible keys filters prefixCount
  have haccess : w.bindings[i]?.map (fun binding ↦ binding.filter.1) = some condition :=
    (List.getElem?_map ..).symm.trans h
  obtain ⟨binding, hbinding, rfl⟩ := Option.map_eq_some_iff.mp haccess
  have hkey := (walkFrom_bindings_getElem? compatible keys filters prefixCount hbinding).1
  have hallows : allows compatible binding.key.column binding.filter.1 = true :=
    allows_of_mem_bindings (List.mem_of_getElem? hbinding)
  exact ⟨binding.key, hkey, judge_of_allows hallows⟩

/-- The walk binds a key exactly where the number of the key is in range, up to the first gap. -/
theorem isGreatest_length_bindings (h : prefixCount ≤ keys.length) :
    IsGreatest
      {n | prefixCount + n ≤ keys.length ∧ ∀ slot, prefixCount ≤ slot → slot < prefixCount + n →
        settledBefore keys prefixCount slot < (usableAt compatible keys filters slot).length}
      (walkFrom compatible keys filters prefixCount).bindings.length := by
  have hbound : (walkFrom compatible keys filters prefixCount).bindings.length ≤
      (keys.drop prefixCount).length := length_walk_bindings_le ..
  rw [List.length_drop] at hbound
  constructor
  · refine ⟨by omega, ?_⟩
    intro slot hlower hupper
    obtain ⟨i, rfl⟩ := Nat.exists_eq_add_of_le hlower
    have hchosen := (walkFrom_bindings_getElem? compatible keys filters prefixCount
      (List.getElem?_eq_getElem (Nat.lt_of_add_lt_add_left hupper))).2
    exact (List.getElem?_eq_some_iff.mp hchosen).1
  · rintro n ⟨_, hall⟩
    by_contra hmore
    have hnext := hall _ (Nat.le_add_right ..) (Nat.add_lt_add_left (not_le.mp hmore) _)
    -- Right after the last binding nothing is chosen.
    have hnone := walk_bindings_getElem? compatible filters.zipIdx prefixCount
      (keys.drop prefixCount) filters.zipIdx [] openAfter_nil _ le_rfl
    rw [choice?_drop, List.getElem?_eq_none (List.length_map _).le, eq_comm,
      List.getElem?_eq_none_iff] at hnone
    exact absurd hnext (not_lt.mpr hnone)

theorem mem_settled_iff_mem_settledPositions (position : Nat) :
    let w := walkFrom compatible keys filters prefixCount
    position ∈ w.settled.map Prod.snd ↔
      position ∈ settledPositions compatible keys filters prefixCount w.bindings.length := by
  intro w
  simp only [Walk.settled, settledPositions, List.mem_map, List.mem_filter, List.mem_filterMap,
    List.mem_range'_1]
  constructor
  · rintro ⟨filter, ⟨binding, ⟨hbinding, hwhole⟩, rfl⟩, rfl⟩
    obtain ⟨i, hget⟩ := List.mem_iff_getElem?.mp hbinding
    obtain ⟨hi, _⟩ := List.getElem?_eq_some_iff.mp hget
    obtain ⟨hkey, hfilter⟩ := walkFrom_bindings_getElem? compatible keys filters prefixCount hget
    refine ⟨prefixCount + i, ⟨⟨by omega, by omega⟩, ?_⟩, ?_⟩
    · rw [hkey]
      exact hwhole
    · rw [hfilter]
      rfl
  · rintro ⟨slot, ⟨⟨hlower, hupper⟩, hwhole⟩, hposition⟩
    obtain ⟨i, rfl⟩ := Nat.exists_eq_add_of_le hlower
    have hget : w.bindings[i]? = some w.bindings[i] := List.getElem?_eq_getElem (by omega)
    obtain ⟨hkey, hfilter⟩ := walkFrom_bindings_getElem? compatible keys filters prefixCount hget
    rw [hkey] at hwhole
    rw [hfilter] at hposition
    exact ⟨_, ⟨_, ⟨List.getElem_mem _, hwhole⟩, rfl⟩, Option.some.inj hposition⟩

theorem walkFrom_residual_eq_filter :
    let w := walkFrom compatible keys filters prefixCount
    w.residual = filters.zipIdx.filter fun filter ↦ decide (filter.2 ∉
      settledPositions compatible keys filters prefixCount w.bindings.length) := by
  intro w
  have hnodup : (filters.zipIdx.map Prod.snd).Nodup := by
    rw [List.zipIdx_map_snd]
    exact List.nodup_range'
  calc
    w.residual = filters.zipIdx.filter fun filter ↦
        decide (filter.2 ∉ w.settled.map Prod.snd) := walk_residual_eq_filter hnodup
    _ = _ := by
      apply List.filter_congr
      intro filter _
      rw [Bool.eq_iff_iff, decide_eq_true_iff, decide_eq_true_iff]
      exact not_congr (mem_settled_iff_mem_settledPositions compatible keys filters prefixCount _)

end

/-- The walk with open filters gives the extension of the closed form, for any keys and filters; a
column may occur in several keys. -/
theorem requestExtension_follows (compatible : Compatibility) (keys : List KeyColumn)
    (filters : List Expr) (prefixCount : Nat) (h : prefixCount ≤ keys.length) :
    ∃ outcome extension,
      requestExtension compatible keys filters prefixCount = .ok outcome ∧
        outcome.result = .ok extension ∧
          Follows compatible keys filters prefixCount extension := by
  let w := walkFrom compatible keys filters prefixCount
  have hlength : (w.toExtension filters.length).access.length = w.bindings.length :=
    List.length_map ..
  refine ⟨_, w.toExtension filters.length, if_pos h, rfl, ⟨?_, ?_, ?_⟩⟩
  · rw [hlength]
    exact isGreatest_length_bindings compatible keys filters prefixCount h
  · intro slot hlower hupper
    obtain ⟨i, rfl⟩ := Nat.exists_eq_add_of_le hlower
    have hget : w.bindings[i]? = some w.bindings[i] := List.getElem?_eq_getElem (by omega)
    rw [(walkFrom_bindings_getElem? compatible keys filters prefixCount hget).2,
      Nat.add_sub_cancel_left]
    exact (List.getElem?_map ..).trans (congrArg _ hget)
  · rw [hlength]
    exact congrArg _ (walkFrom_residual_eq_filter compatible keys filters prefixCount)

/-- A column kept whole twice, then by ten characters, then whole again. -/
def repeatedKeys : List KeyColumn :=
  let column : Column := ⟨1, "a", .plain .int⟩
  [⟨column, none⟩, ⟨column, none⟩, ⟨column, some 10⟩, ⟨column, none⟩]

/-- Three equalities of that column, under another name and in both operand orders. -/
def repeatedEqualities : List Expr :=
  let column : Expr := .column ⟨1, "t.a", .plain .int⟩
  let value (n : Int64) : Expr := .constant (.int n) (.plain .int)
  [.call .eq [column, value 1] .binary, .call .eq [value 2, column] .binary,
    .call .eq [column, value 3] .binary]

theorem requestExtension_follows_repeatedKeys :
    1 ≤ repeatedKeys.length ∧ ∃ outcome extension,
      requestExtension .byFamily repeatedKeys repeatedEqualities 1 = .ok outcome ∧
        outcome.result = .ok extension ∧
          Follows .byFamily repeatedKeys repeatedEqualities 1 extension :=
  ⟨by decide, requestExtension_follows .byFamily repeatedKeys repeatedEqualities 1 (by decide)⟩

/-- The key in slot 2 binds the second filter without settling it, so slot 3 binds it again. -/
example : [1, 2, 3].map (settledBefore repeatedKeys 1) = [0, 1, 1] := by decide

end IndexAccess.Seek
