import IndexAccess.Proofs.Seek.Reference

/-!
# Where each filter goes

A walk places filters by their positions among the filters given, so that equal filters are told
apart.  Where every key has a column of its own, a filter is bound at one key at most: it equates
one column, and no second key has that column.  So a filter bound by a part of its column stays
open to the end, one bound by the whole of it is gone, and one that is not bound stays.

Content alone would not show this.  Two equal filters may be bound and kept side by side, and a
filter with a constant that is no number is not even equal to itself.
-/

namespace IndexAccess.Seek

variable {compatible : Compatibility}

/-- The positions of the filters bound, in the order of the keys. -/
def Walk.bound (w : Walk) : List Nat := w.bindings.map fun binding ↦ binding.filter.2

/-- The positions of the filters that stay open. -/
def Walk.kept (w : Walk) : List Nat := w.residual.map Prod.snd

/-- The course of a walk told by positions: bindings stand at consecutive slots and name the keys
and filters there, no filter is bound twice, and a filter is kept unless a whole key binds it. -/
structure Placed (keys : List KeyColumn) (filters : List Expr) (prefixCount : Nat) (w : Walk) :
    Prop where
  slots : w.bindings.map Binding.slot = List.range' prefixCount w.bindings.length
  key : ∀ binding ∈ w.bindings, keys[binding.slot]? = some binding.key
  filter : ∀ binding ∈ w.bindings, filters[binding.filter.2]? = some binding.filter.1
  residual : w.residual.Sublist filters.zipIdx
  once : w.bound.Nodup
  kept_iff : ∀ binding ∈ w.bindings, binding.filter.2 ∈ w.kept ↔ binding.key.isWhole = false
  kept_of_unbound : ∀ position < filters.length, position ∉ w.bound → position ∈ w.kept

/-! ## Slots and filters of a walk -/

theorem map_slot_walk_bindings (compatible : Compatibility) (slot : Nat) (keys : List KeyColumn)
    (filters : List OpenFilter) :
    let w := walk compatible slot keys filters
    w.bindings.map Binding.slot = List.range' slot w.bindings.length := by
  fun_induction walk compatible slot keys filters with
  | case1 => rfl
  | case2 => rfl
  | case3 slot key keys filters picked found others hfound later ih =>
    simpa only [List.map_cons, List.length_cons, List.range'_succ, List.cons.injEq, true_and]
      using ih

theorem filter_mem_of_mem_bindings {slot : Nat} {keys : List KeyColumn}
    {filters : List OpenFilter} {binding : Binding}
    (h : binding ∈ (walk compatible slot keys filters).bindings) : binding.filter ∈ filters := by
  fun_induction walk compatible slot keys filters with
  | case1 => cases h
  | case2 => cases h
  | case3 slot key keys filters picked found others hfound later ih =>
    have htaken := takesFirst_of_pick hfound
    cases h with
    | head => exact htaken.perm.symm.subset List.mem_cons_self
    | tail _ hlater =>
      have hopen := ih hlater
      split at hopen
      · exact htaken.sublist.subset hopen
      · exact hopen

section

variable {keys : List KeyColumn} {filters : List Expr} {prefixCount : Nat} {binding : Binding}

theorem getElem?_slot_of_mem
    (h : binding ∈ (walkFrom compatible keys filters prefixCount).bindings) :
    keys[binding.slot]? = some binding.key := by
  obtain ⟨i, hget⟩ := List.mem_iff_getElem?.mp h
  obtain ⟨hi, -⟩ := List.getElem?_eq_some_iff.mp hget
  have hslots := congrArg (fun slots ↦ slots[i]?)
    (map_slot_walk_bindings compatible prefixCount (keys.drop prefixCount) filters.zipIdx)
  change (List.map _ (walkFrom compatible keys filters prefixCount).bindings)[i]? =
    (List.range' _ (walkFrom compatible keys filters prefixCount).bindings.length)[i]? at hslots
  rw [List.getElem?_map, hget, List.getElem?_range' hi, Option.map_some, Option.some.injEq,
    Nat.one_mul] at hslots
  rw [hslots]
  exact (walkFrom_bindings_getElem? compatible keys filters prefixCount hget).1

theorem getElem?_position_of_mem
    (h : binding ∈ (walkFrom compatible keys filters prefixCount).bindings) :
    filters[binding.filter.2]? = some binding.filter.1 :=
  List.mem_zipIdx_iff_getElem?.mp (filter_mem_of_mem_bindings h)

/-- Two bindings with one filter are at keys with one column. -/
theorem id_eq_of_position_eq {other : Binding}
    (h : binding ∈ (walkFrom compatible keys filters prefixCount).bindings)
    (hother : other ∈ (walkFrom compatible keys filters prefixCount).bindings)
    (heq : binding.filter.2 = other.filter.2) : binding.key.id = other.key.id := by
  have hfilter : binding.filter.1 = other.filter.1 := by
    apply Option.some.inj
    rw [← getElem?_position_of_mem h, ← getElem?_position_of_mem hother, heq]
  have hallows := allows_of_mem_bindings h
  rw [hfilter] at hallows
  exact (Column.sameAs_iff.mp (sameAs_of_allows hallows (allows_of_mem_bindings hother))).1

theorem nodup_bound (distinct : (keys.map KeyColumn.id).Nodup) :
    (walkFrom compatible keys filters prefixCount).bound.Nodup := by
  let w := walkFrom compatible keys filters prefixCount
  have hkeys : w.bindings.map Binding.key = (keys.drop prefixCount).take w.bindings.length :=
    map_key_walk_bindings compatible prefixCount (keys.drop prefixCount) filters.zipIdx
  have hids : (w.bindings.map fun binding ↦ binding.key.id).Nodup := by
    have hsublist : ((keys.drop prefixCount).take w.bindings.length).Sublist keys :=
      (List.take_sublist _ _).trans (List.drop_sublist _ _)
    rw [← hkeys] at hsublist
    simpa only [List.map_map, Function.comp_def] using distinct.sublist (hsublist.map KeyColumn.id)
  unfold Walk.bound List.Nodup
  rw [List.Nodup, List.pairwise_map] at hids
  rw [List.pairwise_map]
  refine hids.imp_of_mem ?_
  intro binding other hbinding hother hne heq
  exact hne (id_eq_of_position_eq hbinding hother heq)

theorem mem_kept_iff {position : Nat} :
    let w := walkFrom compatible keys filters prefixCount
    position ∈ w.kept ↔ position < filters.length ∧ position ∉ w.settled.map Prod.snd := by
  intro w
  have hpositions : filters.zipIdx.map Prod.snd = List.range' 0 filters.length :=
    List.zipIdx_map_snd 0 filters
  have hnodup : (filters.zipIdx.map Prod.snd).Nodup := by
    rw [hpositions]
    exact List.nodup_range'
  have hresidual : w.residual = filters.zipIdx.filter fun filter ↦
      decide (filter.2 ∉ w.settled.map Prod.snd) := walk_residual_eq_filter hnodup
  have hkept : w.kept = (List.range' 0 filters.length).filter fun position ↦
      decide (position ∉ w.settled.map Prod.snd) := by
    unfold Walk.kept
    rw [hresidual, ← hpositions, List.filter_map]
    rfl
  rw [hkept, List.mem_filter, decide_eq_true_iff, List.mem_range'_1]
  simp

theorem mem_settled_of_isWhole (w : Walk) (h : binding ∈ w.bindings)
    (hwhole : binding.key.isWhole = true) : binding.filter.2 ∈ w.settled.map Prod.snd :=
  List.mem_map_of_mem (List.mem_map_of_mem (List.mem_filter.mpr ⟨h, hwhole⟩))

theorem mem_bound_of_mem_settled {w : Walk} {position : Nat}
    (h : position ∈ w.settled.map Prod.snd) : position ∈ w.bound := by
  obtain ⟨filter, hfilter, rfl⟩ := List.mem_map.mp h
  obtain ⟨settling, hsettling, rfl⟩ := List.mem_map.mp hfilter
  exact List.mem_map_of_mem (List.mem_of_mem_filter hsettling)

theorem placed_walkFrom (distinct : (keys.map KeyColumn.id).Nodup) :
    Placed keys filters prefixCount (walkFrom compatible keys filters prefixCount) where
  slots := map_slot_walk_bindings compatible prefixCount (keys.drop prefixCount) filters.zipIdx
  key := fun _ ↦ getElem?_slot_of_mem
  filter := fun _ ↦ getElem?_position_of_mem
  residual := walk_residual_sublist compatible prefixCount (keys.drop prefixCount) filters.zipIdx
  once := nodup_bound distinct
  kept_iff := by
    intro binding hbinding
    constructor
    · intro hkept
      by_contra hwhole
      rw [Bool.not_eq_false] at hwhole
      exact (mem_kept_iff.mp hkept).2 (mem_settled_of_isWhole _ hbinding hwhole)
    · intro hpartial
      have hdistinct : ((keys.drop prefixCount).map KeyColumn.id).Nodup := by
        rw [List.map_drop]
        exact distinct.sublist (List.drop_sublist _ _)
      exact List.mem_map_of_mem (mem_walk_residual_of_partial hdistinct hbinding hpartial)
  kept_of_unbound := by
    intro position hlt hunbound
    exact mem_kept_iff.mpr ⟨hlt, fun hsettled ↦ hunbound (mem_bound_of_mem_settled hsettled)⟩

end

/-- Over keys with columns of their own, an extension comes from a walk that binds each filter once
at most, keeps those bound by a part of their column and those not bound, and no other. -/
theorem requestExtension_placed (compatible : Compatibility) (keys : List KeyColumn)
    (filters : List Expr) (prefixCount : Nat) (distinct : (keys.map KeyColumn.id).Nodup)
    (h : prefixCount ≤ keys.length) :
    let w := walkFrom compatible keys filters prefixCount
    ∃ outcome, requestExtension compatible keys filters prefixCount = .ok outcome ∧
      outcome.result = .ok (w.toExtension filters.length) ∧ Placed keys filters prefixCount w :=
  ⟨_, if_pos h, rfl, placed_walkFrom distinct⟩

/-- A whole key, a key that keeps ten characters, and a whole key. -/
def mixedKeys : List KeyColumn :=
  [⟨⟨1, "a", .plain .int⟩, none⟩, ⟨⟨2, "b", .plain .double⟩, some 10⟩,
    ⟨⟨3, "c", .plain .int⟩, none⟩]

/-- The second column equated twice with what is no number, and the third one with a number. -/
def repeatedFilters : List Expr :=
  let noNumber : Expr := .constant (.float ⟨0x7FF8000000000000⟩) (.plain .double)
  let second : Expr := .call .eq [.column ⟨2, "b", .plain .double⟩, noNumber] .binary
  let third : Expr :=
    .call .eq [.constant (.int 5) (.plain .int), .column ⟨3, "c", .plain .int⟩] .binary
  [second, second, third]

theorem requestExtension_placed_mixedKeys :
    (mixedKeys.map KeyColumn.id).Nodup ∧ 1 ≤ mixedKeys.length ∧
      let w := walkFrom .byFamily mixedKeys repeatedFilters 1
      ∃ outcome, requestExtension .byFamily mixedKeys repeatedFilters 1 = .ok outcome ∧
        outcome.result = .ok (w.toExtension repeatedFilters.length) ∧
          Placed mixedKeys repeatedFilters 1 w :=
  ⟨by decide, by decide,
    requestExtension_placed .byFamily mixedKeys repeatedFilters 1 (by decide) (by decide)⟩

/-- The two equal filters are told apart: the first one is bound, and both are kept. -/
example :
    let w := walkFrom .byFamily mixedKeys repeatedFilters 1
    w.bound = [0, 2] ∧ w.kept = [0, 1] := by
  decide

end IndexAccess.Seek
