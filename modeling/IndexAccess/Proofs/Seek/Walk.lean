import IndexAccess.Seek.Extension
import Mathlib.Data.List.Basic

/-!
# Laws of a seek walk

A filter that allows a seek equates one column with a fixed value, so it can serve two key columns
only if these are the same column.  Picking takes the first usable filter out of the open ones and
keeps the order of the others.  Hence a walk loses no filter and doubles none: what stays open and
what whole keys settle are together the filters given, and what stays open keeps its order.

Filters carry their positions here, so two equal filters are told apart.
-/

namespace IndexAccess

namespace Column

theorem sameAs_comm (left right : Column) : left.sameAs right = right.sameAs left := by
  rw [Bool.eq_iff_iff, sameAs_iff, sameAs_iff, eq_comm (a := left.id), eq_comm (a := left.type)]

theorem sameAs_trans {first second third : Column} (h : first.sameAs second = true)
    (h' : second.sameAs third = true) : first.sameAs third = true := by
  rw [sameAs_iff] at h h' ⊢
  exact ⟨h.1.trans h'.1, h.2.trans h'.2⟩

end Column

namespace Seek

variable {compatible : Compatibility}

/-! ## The column of a seek -/

/-- An equality of `column` and a value that is fixed during one scan, in either order. -/
inductive Equates (column : Column) : Expr → Prop where
  | onLeft {value : Expr} {collation : Collation} (h : isFixed value = true) :
      Equates column (.call .eq [.column column, value] collation)
  | onRight {value : Expr} {collation : Collation} (h : isFixed value = true) :
      Equates column (.call .eq [value, .column column] collation)

/-- The other side of the equality is no column, so the column is determined. -/
theorem Equates.unique {first second : Column} {filter : Expr} (h : Equates first filter)
    (h' : Equates second filter) : first = second := by
  cases h with
  | onLeft hvalue =>
    cases h' with
    | onLeft => rfl
    | onRight => simp [isFixed] at hvalue
  | onRight hvalue =>
    cases h' with
    | onLeft => simp [isFixed] at hvalue
    | onRight => rfl

theorem judgeSides_ne_unrelated_iff {target : Column} {collation : Collation} {side value : Expr} :
    judgeSides compatible target collation side value ≠ .unrelated ↔
      ∃ column, side = .column column ∧ isFixed value = true ∧ column.sameAs target = true := by
  cases side with
  | column column =>
    simp only [judgeSides, Expr.column.injEq, exists_eq_left', ← Bool.and_eq_true]
    split
    · next hrelated => split <;> simp [hrelated]
    · next hrelated => simp [hrelated]
  | constant => simp [judgeSides]
  | correlated => simp [judgeSides]
  | call => simp [judgeSides]

/-- The compatibility is asked only about related operands, and only for strings. -/
theorem judgeSides_eq_usable_iff {target : Column} {collation : Collation} {side value : Expr} :
    judgeSides compatible target collation side value = .usable ↔
      judgeSides compatible target collation side value ≠ .unrelated ∧
        (target.isString = true → compatible collation target.type.collation = true) := by
  cases side with
  | column column =>
    simp only [judgeSides]
    split
    · split
      · next hbars =>
        rw [Bool.and_eq_true, Bool.not_eq_true'] at hbars
        simp [hbars.1, hbars.2]
      · next hserves => simpa using hserves
    · simp
  | constant => simp [judgeSides]
  | correlated => simp [judgeSides]
  | call => simp [judgeSides]

theorem exists_equates_of_judge {target : Column} {filter : Expr}
    (h : judge compatible target filter ≠ .unrelated) :
    ∃ column, Equates column filter ∧ column.sameAs target = true := by
  unfold judge at h
  split at h
  · next left right collation =>
    split at h
    · obtain ⟨column, rfl, hvalue, hsame⟩ := judgeSides_ne_unrelated_iff.mp h
      exact ⟨column, .onRight hvalue, hsame⟩
    · next hverdict =>
      obtain ⟨column, rfl, hvalue, hsame⟩ := judgeSides_ne_unrelated_iff.mp hverdict
      exact ⟨column, .onLeft hvalue, hsame⟩
  · exact absurd rfl h

/-- A filter is related to two columns only if they are the same column. -/
theorem sameAs_of_judge {first second : Column} {filter : Expr}
    (h : judge compatible first filter ≠ .unrelated)
    (h' : judge compatible second filter ≠ .unrelated) : first.sameAs second = true := by
  obtain ⟨column, hequates, hsame⟩ := exists_equates_of_judge h
  obtain ⟨column', hequates', hsame'⟩ := exists_equates_of_judge h'
  obtain rfl := hequates.unique hequates'
  exact Column.sameAs_trans (Column.sameAs_comm .. ▸ hsame) hsame'

theorem judgeSides_congr {first second : Column} (h : first.sameAs second = true)
    (collation : Collation) (side value : Expr) :
    judgeSides compatible first collation side value =
      judgeSides compatible second collation side value := by
  obtain ⟨hid, htype⟩ := Column.sameAs_iff.mp h
  cases side with
  | column column =>
    have hsame : column.sameAs first = column.sameAs second := by
      simp only [Column.sameAs, hid, htype]
    have hstring : first.isString = second.isString := by
      simp only [Column.isString, htype]
    simp only [judgeSides]
    rw [hsame, hstring, htype]
  | constant => rfl
  | correlated => rfl
  | call => rfl

theorem judge_congr {first second : Column} (h : first.sameAs second = true) (filter : Expr) :
    judge compatible first filter = judge compatible second filter := by
  unfold judge
  split
  · rw [judgeSides_congr h, judgeSides_congr h]
  · rfl

theorem judge_of_allows {target : Column} {filter : Expr}
    (h : allows compatible target filter = true) : judge compatible target filter = .usable := by
  simpa [allows] using h

theorem allows_of_judge {target : Column} {filter : Expr}
    (h : judge compatible target filter = .usable) : allows compatible target filter = true := by
  simp [allows, h]

theorem allows_congr {first second : Column} (h : first.sameAs second = true) (filter : Expr) :
    allows compatible first filter = allows compatible second filter := by
  unfold allows
  rw [judge_congr h]

theorem judge_ne_unrelated_of_allows {target : Column} {filter : Expr}
    (h : allows compatible target filter = true) : judge compatible target filter ≠ .unrelated := by
  rw [judge_of_allows h]
  decide

theorem sameAs_of_allows {first second : Column} {filter : Expr}
    (h : allows compatible first filter = true) (h' : allows compatible second filter = true) :
    first.sameAs second = true :=
  sameAs_of_judge (judge_ne_unrelated_of_allows h) (judge_ne_unrelated_of_allows h')

/-! ## Picking -/

/-- The filters that allow a seek on a column, in their order. -/
def usableFilters (compatible : Compatibility) (target : Column) (filters : List OpenFilter) :
    List OpenFilter :=
  filters.filter fun filter ↦ allows compatible target filter.1

/-- Taking `found` out of the filters as the first of them that is usable at `target`; the last
argument has the others. -/
inductive TakesFirst (compatible : Compatibility) (target : Column) (found : OpenFilter) :
    List OpenFilter → List OpenFilter → Prop where
  | here {rest : List OpenFilter} (h : allows compatible target found.1 = true) :
      TakesFirst compatible target found (found :: rest) rest
  | there {first : OpenFilter} {filters others : List OpenFilter}
      (h : allows compatible target first.1 = false)
      (later : TakesFirst compatible target found filters others) :
      TakesFirst compatible target found (first :: filters) (first :: others)

namespace TakesFirst

variable {target other : Column} {found : OpenFilter} {filters others : List OpenFilter}

theorem allows_found (h : TakesFirst compatible target found filters others) :
    allows compatible target found.1 = true := by
  induction h with
  | here h => exact h
  | there _ _ ih => exact ih

theorem perm (h : TakesFirst compatible target found filters others) :
    filters.Perm (found :: others) := by
  induction h with
  | here => exact List.Perm.refl _
  | there _ _ ih => exact (ih.cons _).trans (List.Perm.swap ..)

theorem sublist (h : TakesFirst compatible target found filters others) :
    others.Sublist filters := by
  induction h with
  | here => exact List.sublist_cons_self _ _
  | there _ _ ih => exact ih.cons_cons _

/-- Among the filters usable at `target` the one found is the first. -/
theorem usableFilters_self (h : TakesFirst compatible target found filters others) :
    usableFilters compatible target filters = found :: usableFilters compatible target others := by
  unfold usableFilters
  induction h with
  | here h => rw [List.filter_cons, if_pos h]
  | there h _ ih =>
    rw [List.filter_cons_of_neg (by simp [h]), List.filter_cons_of_neg (by simp [h]), ih]

/-- Where the filter found is not usable, nothing is missed without it. -/
theorem usableFilters_of_not (h : TakesFirst compatible target found filters others)
    (hother : allows compatible other found.1 = false) :
    usableFilters compatible other filters = usableFilters compatible other others := by
  unfold usableFilters
  induction h with
  | here => rw [List.filter_cons_of_neg (by simp [hother])]
  | there _ _ ih => rw [List.filter_cons, List.filter_cons, ih]

/-- Where no position occurs twice, the others are the filters at other positions. -/
theorem filter_position_ne (h : TakesFirst compatible target found filters others)
    (hnodup : (filters.map Prod.snd).Nodup) :
    filters.filter (fun filter ↦ decide (filter.2 ≠ found.2)) = others := by
  induction h with
  | here =>
    obtain ⟨hnew, _⟩ := List.nodup_cons.mp hnodup
    rw [List.filter_cons_of_neg (by simp), List.filter_eq_self]
    intro filter hmem
    apply decide_eq_true
    intro heq
    exact hnew (heq ▸ List.mem_map_of_mem hmem)
  | @there first rest others _ later ih =>
    obtain ⟨hnew, hrest⟩ := List.nodup_cons.mp hnodup
    have hfound : found ∈ rest := later.perm.symm.subset List.mem_cons_self
    have hne : first.2 ≠ found.2 := by
      intro heq
      exact hnew (heq ▸ List.mem_map_of_mem hfound)
    rw [List.filter_cons_of_pos (by simp [hne]), ih hrest]

end TakesFirst

theorem pick_found_eq_none_iff {target : Column} {filters : List OpenFilter} :
    (pick compatible target filters).found = none ↔
      usableFilters compatible target filters = [] := by
  unfold usableFilters
  fun_induction pick compatible target filters with
  | case1 => simp
  | case2 filter rest hverdict => simp [allows, hverdict]
  | case3 filter rest passOver hverdict ih => simp [passOver, allows, hverdict, ih]
  | case4 filter rest passOver hverdict ih => simp [passOver, allows, hverdict, ih]

theorem takesFirst_of_pick {target : Column} {filters others : List OpenFilter}
    {found : OpenFilter} (h : (pick compatible target filters).found = some (found, others)) :
    TakesFirst compatible target found filters others := by
  induction filters generalizing others with
  | nil => simp [pick] at h
  | cons first rest ih =>
    simp only [pick] at h
    split at h
    · next hverdict =>
      obtain ⟨rfl, rfl⟩ := Prod.mk.inj (Option.some.inj h)
      exact .here (by simp [allows, hverdict])
    all_goals
      next hverdict =>
        obtain ⟨⟨hit, later⟩, hfound, heq⟩ := Option.map_eq_some_iff.mp h
        obtain ⟨rfl, rfl⟩ := Prod.mk.inj heq
        exact .there (by simp [allows, hverdict]) (ih hfound)

/-! ## Images

What a walk does hangs on verdicts and on which keys are whole.  Wherever keys and open filters are
exchanged for others with the same verdicts, the walk is exchanged in the same way. -/

def Pick.map (onFilter : OpenFilter → OpenFilter) (picked : Pick) : Pick where
  found := picked.found.map fun (hit, others) ↦ (onFilter hit, others.map onFilter)
  rejected := picked.rejected

def Walk.map (onKey : KeyColumn → KeyColumn) (onFilter : OpenFilter → OpenFilter) (w : Walk) :
    Walk where
  bindings := w.bindings.map fun binding ↦
    ⟨binding.slot, onKey binding.key, onFilter binding.filter⟩
  residual := w.residual.map onFilter
  gap := w.gap.map fun (slot, key) ↦ (slot, onKey key)
  rejected := w.rejected

theorem pick_map {onFilter : OpenFilter → OpenFilter} {target image : Column}
    (hjudge : ∀ filter : OpenFilter,
      judge compatible image (onFilter filter).1 = judge compatible target filter.1)
    (filters : List OpenFilter) :
    pick compatible image (filters.map onFilter) =
      (pick compatible target filters).map onFilter := by
  fun_induction pick compatible target filters with
  | case1 => rfl
  | case2 filter rest hverdict =>
    simp only [List.map_cons, pick, hjudge, hverdict, Pick.map, Option.map_some]
  | case3 filter rest passOver hverdict ih =>
    simp only [List.map_cons, pick, hjudge, hverdict, ih, passOver, Pick.map, Option.map_map]
    rfl
  | case4 filter rest passOver hverdict ih =>
    simp only [List.map_cons, pick, hjudge, hverdict, ih, passOver, Pick.map, Option.map_map]
    rfl

theorem walk_map (onKey : KeyColumn → KeyColumn) (onFilter : OpenFilter → OpenFilter)
    (hjudge : ∀ (key : KeyColumn) (filter : OpenFilter),
      judge compatible (onKey key).column (onFilter filter).1 =
        judge compatible key.column filter.1)
    (hwhole : ∀ key, (onKey key).isWhole = key.isWhole)
    (slot : Nat) (keys : List KeyColumn) (filters : List OpenFilter) :
    walk compatible slot (keys.map onKey) (filters.map onFilter) =
      (walk compatible slot keys filters).map onKey onFilter := by
  fun_induction walk compatible slot keys filters with
  | case1 => rfl
  | case2 slot key keys filters picked hfound =>
    have hpicked : pick compatible (onKey key).column (filters.map onFilter) =
        picked.map onFilter := pick_map (hjudge key) filters
    simp only [List.map_cons, walk, hpicked, Pick.map, hfound, Option.map_none]
    rfl
  | case3 slot key keys filters picked found others hfound later ih =>
    have hpicked : pick compatible (onKey key).column (filters.map onFilter) =
        picked.map onFilter := pick_map (hjudge key) filters
    have hopen : (if (onKey key).isWhole then others.map onFilter else filters.map onFilter) =
        (if key.isWhole then others else filters).map onFilter := by
      rw [hwhole, apply_ite (List.map onFilter)]
    simp only [List.map_cons, walk, hpicked, Pick.map, hfound, Option.map_some, hopen, ih]
    rfl

/-! ## Walking -/

/-- The filters that a walk settles: those bound at keys that keep the whole value. -/
def Walk.settled (w : Walk) : List OpenFilter :=
  (w.bindings.filter fun binding ↦ binding.key.isWhole).map Binding.filter

section

variable (compatible) (slot : Nat) (keys : List KeyColumn) (filters : List OpenFilter)

/-- No filter is lost and none is doubled. -/
theorem perm_walk_residual_settled :
    let w := walk compatible slot keys filters
    filters.Perm (w.residual ++ w.settled) := by
  fun_induction walk compatible slot keys filters with
  | case1 => simp [Walk.settled]
  | case2 => simp [Walk.settled]
  | case3 slot key keys filters picked found others hfound later ih =>
    have hlater : (if key.isWhole then others else filters).Perm
        (later.residual ++ later.settled) := ih
    cases hwhole : key.isWhole with
    | true =>
      rw [hwhole, if_pos rfl] at hlater
      have hfilters : filters.Perm (later.residual ++ found :: later.settled) :=
        (takesFirst_of_pick hfound).perm.trans
          ((hlater.cons found).trans List.perm_middle.symm)
      simpa only [Walk.settled, List.filter_cons, hwhole, if_true, List.map_cons] using hfilters
    | false =>
      rw [hwhole, if_neg Bool.false_ne_true] at hlater
      simpa only [Walk.settled, List.filter_cons, hwhole, Bool.false_eq_true, if_false] using hlater

theorem walk_residual_sublist :
    (walk compatible slot keys filters).residual.Sublist filters := by
  fun_induction walk compatible slot keys filters with
  | case1 => exact List.Sublist.refl _
  | case2 => exact List.Sublist.refl _
  | case3 slot key keys filters picked found others hfound later ih =>
    refine ih.trans ?_
    split
    · exact (takesFirst_of_pick hfound).sublist
    · exact List.Sublist.refl _

/-- The keys bound are the first ones, in their order. -/
theorem map_key_walk_bindings :
    let w := walk compatible slot keys filters
    w.bindings.map Binding.key = keys.take w.bindings.length := by
  fun_induction walk compatible slot keys filters with
  | case1 => rfl
  | case2 => rfl
  | case3 slot key keys filters picked found others hfound later ih =>
    simpa only [List.map_cons, List.length_cons, List.take_succ_cons, List.cons.injEq, true_and]
      using ih

theorem length_walk_bindings_le :
    (walk compatible slot keys filters).bindings.length ≤ keys.length := by
  have h := congrArg List.length (map_key_walk_bindings compatible slot keys filters)
  rw [List.length_map, List.length_take] at h
  omega

end

theorem allows_of_mem_bindings {slot : Nat} {keys : List KeyColumn} {filters : List OpenFilter}
    {binding : Binding} (h : binding ∈ (walk compatible slot keys filters).bindings) :
    allows compatible binding.key.column binding.filter.1 = true := by
  fun_induction walk compatible slot keys filters with
  | case1 => cases h
  | case2 => cases h
  | case3 slot key keys filters picked found others hfound later ih =>
    cases h with
    | head => exact (takesFirst_of_pick hfound).allows_found
    | tail _ hlater => exact ih hlater

theorem key_mem_of_mem_bindings {slot : Nat} {keys : List KeyColumn} {filters : List OpenFilter}
    {binding : Binding} (h : binding ∈ (walk compatible slot keys filters).bindings) :
    binding.key ∈ keys := by
  have hkeys := map_key_walk_bindings compatible slot keys filters
  have hmem := List.mem_map_of_mem (f := Binding.key) h
  rw [hkeys] at hmem
  exact List.mem_of_mem_take hmem

/-- With no column twice among the keys, a filter bound at a key that keeps only a part of the
value is not settled at any other key, so it stays open. -/
theorem mem_walk_residual_of_partial {slot : Nat} {keys : List KeyColumn}
    {filters : List OpenFilter} (distinct : (keys.map KeyColumn.id).Nodup) {binding : Binding}
    (h : binding ∈ (walk compatible slot keys filters).bindings)
    (hpartial : binding.key.isWhole = false) :
    binding.filter ∈ (walk compatible slot keys filters).residual := by
  fun_induction walk compatible slot keys filters with
  | case1 => cases h
  | case2 => cases h
  | case3 slot key keys filters picked found others hfound later ih =>
    obtain ⟨hnew, hdistinct⟩ := List.nodup_cons.mp distinct
    cases h with
    | tail _ hlater => exact ih hdistinct hlater
    | head =>
      have htaken := takesFirst_of_pick hfound
      have hlater : later = walk compatible (slot + 1) keys filters := by
        simp only [later, show key.isWhole = false from hpartial, Bool.false_eq_true, if_false]
      have hperm := perm_walk_residual_settled compatible (slot + 1) keys filters
      rw [← hlater] at hperm
      have hopen : found ∈ filters := htaken.perm.symm.subset List.mem_cons_self
      rcases List.mem_append.mp (hperm.subset hopen) with hresidual | hsettled
      · exact hresidual
      · obtain ⟨settling, hmem, heq⟩ := List.mem_map.mp hsettled
        have hbound := List.mem_of_mem_filter hmem
        have hsame : settling.key.column.sameAs key.column = true :=
          sameAs_of_allows (heq ▸ allows_of_mem_bindings hbound) htaken.allows_found
        have hid : settling.key.id = key.id := (Column.sameAs_iff.mp hsame).1
        exact absurd (List.mem_map.mpr ⟨settling.key, key_mem_of_mem_bindings hbound, hid⟩) hnew

end Seek

end IndexAccess
