import IndexAccess.Proofs.Seek.Comparison

/-!
# Filters rejected for their collation

An equality under a collation that the column's does not certify cannot serve a seek: the index may
hold equal values apart.  A walk passes over such a filter at the key where it is met, and no other
key takes it either.  A key related to the same filter has the same column and the same type, so the
verdict there is the same, whatever the compatibility test says of other collations.

A rejected filter is counted at every key where it is met.  Where every key has a column of its own,
a filter is related to one key at most, so it is bound or rejected once at most.
-/

namespace IndexAccess.Seek

variable {compatible : Compatibility}

/-- A filter is not usable at one key and incompatible at another. -/
theorem judge_ne_incompatible_of_allows {first second : Column} {filter : Expr}
    (h : allows compatible first filter = true) :
    judge compatible second filter ≠ .incompatible := by
  intro hincompatible
  have husable := judge_of_allows h
  have hsecond : judge compatible second filter ≠ .unrelated := by
    rw [hincompatible]
    decide
  have hsame := sameAs_of_judge (judge_ne_unrelated_of_allows h) hsecond
  rw [judge_congr hsame, hincompatible] at husable
  cases husable

/-! ## Counts of bound and rejected filters -/

theorem countP_add_countP_of_disjoint {α : Type} {p q : α → Bool} {as : List α}
    (h : ∀ a ∈ as, p a = true → q a = false) :
    as.countP p + as.countP q = as.countP fun a ↦ p a || q a := by
  induction as with
  | nil => rfl
  | cons a as ih =>
    have hrest := ih fun b hb ↦ h b (List.mem_cons_of_mem _ hb)
    simp only [List.countP_cons]
    cases hp : p a with
    | true =>
      rw [h a List.mem_cons_self hp, Bool.true_or, if_neg Bool.false_ne_true]
      omega
    | false =>
      rw [Bool.false_or, if_neg Bool.false_ne_true]
      omega

/-- Whether the filter is related to the column of a key. -/
def isRelatedTo (compatible : Compatibility) (key : KeyColumn) (filter : OpenFilter) : Bool :=
  judge compatible key.column filter.1 != .unrelated

def isRelatedToAny (compatible : Compatibility) (keys : List KeyColumn) (filter : OpenFilter) :
    Bool :=
  keys.any fun key ↦ isRelatedTo compatible key filter

/-- A filter related to a key is related to no key of another column. -/
theorem isRelatedToAny_eq_false {key : KeyColumn} {keys : List KeyColumn} {filter : OpenFilter}
    (hnew : key.id ∉ keys.map KeyColumn.id) (h : isRelatedTo compatible key filter = true) :
    isRelatedToAny compatible keys filter = false := by
  refine List.any_eq_false.mpr fun other hother hrelated ↦ hnew ?_
  have hsame := sameAs_of_judge (bne_iff_ne.mp hrelated) (bne_iff_ne.mp h)
  exact List.mem_map.mpr ⟨other, hother, (Column.sameAs_iff.mp hsame).1⟩

theorem countP_isRelatedToAny_cons (compatible : Compatibility) {key : KeyColumn}
    {keys : List KeyColumn} (distinct : ((key :: keys).map KeyColumn.id).Nodup)
    (filters : List OpenFilter) :
    filters.countP (isRelatedTo compatible key) + filters.countP (isRelatedToAny compatible keys) =
      filters.countP (isRelatedToAny compatible (key :: keys)) :=
  countP_add_countP_of_disjoint fun _ _ ↦ isRelatedToAny_eq_false (List.nodup_cons.mp distinct).1

/-- With a filter bound at a key, those rejected there leave room for it. -/
theorem pick_rejected_le (key : KeyColumn) (filters : List OpenFilter) :
    let picked := pick compatible key.column filters
    picked.rejected + (if picked.found.isSome then 1 else 0) ≤
      filters.countP (isRelatedTo compatible key) := by
  fun_induction pick compatible key.column filters with
  | case1 => exact Nat.le_refl _
  | case2 filter rest hverdict => simp [isRelatedTo, hverdict]
  | case3 filter rest passOver hverdict ih =>
    have hrelated : isRelatedTo compatible key filter = true := by simp [isRelatedTo, hverdict]
    simp only [passOver, Option.isSome_map, List.countP_cons_of_pos hrelated]
    omega
  | case4 filter rest passOver hverdict ih =>
    have hunrelated : ¬ isRelatedTo compatible key filter = true := by
      simp [isRelatedTo, hverdict]
    simp only [passOver, Option.isSome_map, List.countP_cons_of_neg hunrelated]
    omega

/-- Over keys with columns of their own, each related filter is bound or rejected once at most. -/
theorem length_bindings_add_rejected_le {slot : Nat} {keys : List KeyColumn}
    {filters : List OpenFilter} (distinct : (keys.map KeyColumn.id).Nodup) :
    let w := walk compatible slot keys filters
    w.bindings.length + w.rejected ≤ filters.countP (isRelatedToAny compatible keys) := by
  fun_induction walk compatible slot keys filters with
  | case1 => exact Nat.zero_le _
  | case2 slot key keys filters picked hfound =>
    have hhere : picked.rejected + (if picked.found.isSome then 1 else 0) ≤
        filters.countP (isRelatedTo compatible key) := pick_rejected_le key filters
    have hcount := countP_isRelatedToAny_cons compatible distinct filters
    simp only [List.length_nil]
    omega
  | case3 slot key keys filters picked found others hfound later ih =>
    have hhere : picked.rejected + (if picked.found.isSome then 1 else 0) ≤
        filters.countP (isRelatedTo compatible key) := pick_rejected_le key filters
    rw [hfound, Option.isSome_some, if_pos rfl] at hhere
    have hlater : later.bindings.length + later.rejected ≤
        filters.countP (isRelatedToAny compatible keys) := by
      refine (ih (List.nodup_cons.mp distinct).2).trans (List.Sublist.countP_le ?_)
      split
      · exact (takesFirst_of_pick hfound).sublist
      · exact List.Sublist.refl _
    have hcount := countP_isRelatedToAny_cons compatible distinct filters
    simp only [List.length_cons]
    omega

/-! ## Extensions -/

/-- The conditions bound are incompatible at no key, filters incompatible at some key are kept in
their places, and filters bound or rejected are told apart where the keys are. -/
structure Spared (compatible : Compatibility) (keys : List KeyColumn) (filters : List Expr)
    (w : Walk) : Prop where
  unbound : ∀ condition ∈ (w.toExtension filters.length).access, ∀ key ∈ keys,
    judge compatible key.column condition ≠ .incompatible
  inOrder : w.residual.Sublist filters.zipIdx
  kept : ∀ (position : Nat) (filter : Expr), filters[position]? = some filter →
    ∀ key ∈ keys, judge compatible key.column filter = .incompatible →
      (filter, position) ∈ w.residual
  counted : (keys.map KeyColumn.id).Nodup →
    let extension := w.toExtension filters.length
    extension.consumed + extension.partialMatches + extension.rejected ≤ filters.length

section

variable {keys : List KeyColumn} {filters : List Expr} {prefixCount : Nat}

theorem mem_residual_of_incompatible {position : Nat} {filter : Expr}
    (h : filters[position]? = some filter) {key : KeyColumn}
    (hincompatible : judge compatible key.column filter = .incompatible) :
    (filter, position) ∈ (walkFrom compatible keys filters prefixCount).residual := by
  have hgiven : (filter, position) ∈ filters.zipIdx := List.mem_zipIdx_iff_getElem?.mpr h
  have hparts := perm_walk_residual_settled compatible prefixCount (keys.drop prefixCount)
    filters.zipIdx
  rcases List.mem_append.mp (hparts.subset hgiven) with hresidual | hsettled
  · exact hresidual
  · obtain ⟨binding, hbinding, hfilter⟩ := List.mem_map.mp hsettled
    have hallows := allows_of_mem_bindings (List.mem_of_mem_filter hbinding)
    rw [hfilter] at hallows
    exact absurd hincompatible (judge_ne_incompatible_of_allows hallows)

theorem counts_le_length (distinct : (keys.map KeyColumn.id).Nodup) :
    let extension := extend compatible keys filters prefixCount
    extension.consumed + extension.partialMatches + extension.rejected ≤ filters.length := by
  intro extension
  let w := walkFrom compatible keys filters prefixCount
  have hdistinct : ((keys.drop prefixCount).map KeyColumn.id).Nodup := by
    rw [List.map_drop]
    exact distinct.sublist (List.drop_sublist _ _)
  calc extension.consumed + extension.partialMatches + extension.rejected
    _ = extension.access.length + extension.rejected := by
      rw [← length_extend_access compatible keys filters prefixCount]
    _ = w.bindings.length + w.rejected := congrArg (· + w.rejected) (length_extend_access_eq ..)
    _ ≤ filters.zipIdx.countP (isRelatedToAny compatible (keys.drop prefixCount)) :=
      length_bindings_add_rejected_le hdistinct
    _ ≤ filters.zipIdx.length := List.countP_le_length
    _ = filters.length := List.length_zipIdx

theorem spared_walkFrom :
    Spared compatible keys filters (walkFrom compatible keys filters prefixCount) where
  unbound := by
    intro condition hcondition key _
    obtain ⟨binding, hbinding, rfl⟩ := List.mem_map.mp hcondition
    exact judge_ne_incompatible_of_allows (allows_of_mem_bindings hbinding)
  inOrder := walk_residual_sublist compatible prefixCount (keys.drop prefixCount) filters.zipIdx
  kept := fun _ _ h _ _ ↦ mem_residual_of_incompatible h
  counted := counts_le_length

end

/-- Under any compatibility test and over any keys, a filter rejected at some key is never bound and
is kept in its place.  Over keys with columns of their own the filters suffice for all counts. -/
theorem requestExtension_spares (compatible : Compatibility) (keys : List KeyColumn)
    (filters : List Expr) (prefixCount : Nat) (h : prefixCount ≤ keys.length) :
    let w := walkFrom compatible keys filters prefixCount
    Yields compatible keys filters prefixCount (w.toExtension filters.length) ∧
      Spared compatible keys filters w :=
  ⟨yields_extend compatible keys filters prefixCount h, spared_walkFrom⟩

/-- Certifies one collation by one other, and none by itself. -/
def oneWay : Compatibility := .ofPairs [("utf8_bin", "utf8mb4_bin")]

theorem requestExtension_spares_oneWay :
    0 ≤ textKeys.length ∧ (textKeys.map KeyColumn.id).Nodup ∧
      let w := walkFrom oneWay textKeys textFilters 0
      let extension := w.toExtension textFilters.length
      Yields oneWay textKeys textFilters 0 extension ∧ Spared oneWay textKeys textFilters w ∧
        extension.consumed + extension.partialMatches + extension.rejected ≤
          textFilters.length := by
  have hdistinct : (textKeys.map KeyColumn.id).Nodup := by decide
  obtain ⟨hyields, hspared⟩ :=
    requestExtension_spares oneWay textKeys textFilters 0 (Nat.zero_le _)
  exact ⟨Nat.zero_le _, hdistinct, hyields, hspared, hspared.counted hdistinct⟩

/-- One filter of each sort: one consumed, one matched in part, one rejected. -/
example :
    let extension := extend oneWay textKeys textFilters 0
    extension.consumed = 1 ∧ extension.partialMatches = 1 ∧ extension.rejected = 1 := by
  decide

end IndexAccess.Seek
