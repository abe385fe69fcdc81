import IndexAccess.Proofs.Seek.Walk

/-!
# Filters through one extension

What the walk keeps, told of the extension made from it, where the positions of the filters are
forgotten.  The conditions of an extension belong to the keys after the prefix, one by one; those at
keys that hold their whole column leave the filters, and all others stay among them.

A filter is consumed for each whole key bound, because no filter is settled twice.  So the number
of keys bound decides how many filters are consumed, kept, and matched in part.
-/

namespace IndexAccess.Seek

open scoped List

/-- The conditions bound to keys that hold the whole of their column. -/
def settledBy (bindings : List (KeyColumn × Expr)) : List Expr :=
  (bindings.filter fun (key, _) ↦ key.isWhole).map Prod.snd

section

variable (compatible : Compatibility) (keys : List KeyColumn) (filters : List Expr)
  (prefixCount : Nat)

/-- The request is answered, and `extension` is the answer. -/
def Yields (extension : Extension) : Prop :=
  ∃ outcome, requestExtension compatible keys filters prefixCount = .ok outcome ∧
    outcome.result = .ok extension

variable {compatible keys filters prefixCount} in
theorem yields_iff {extension : Extension} (h : prefixCount ≤ keys.length) :
    Yields compatible keys filters prefixCount extension ↔
      extension = extend compatible keys filters prefixCount := by
  constructor
  · rintro ⟨outcome, hrequest, hresult⟩
    obtain rfl := Except.ok.inj ((if_pos h).symm.trans hrequest)
    exact (Except.ok.inj hresult).symm
  · rintro rfl
    exact ⟨_, if_pos h, rfl⟩

/-- Within the index every request is answered. -/
theorem yields_extend (h : prefixCount ≤ keys.length) :
    Yields compatible keys filters prefixCount (extend compatible keys filters prefixCount) :=
  (yields_iff h).mpr rfl

/-- An extension has one condition for each binding of its walk. -/
theorem length_extend_access_eq :
    (extend compatible keys filters prefixCount).access.length =
      (walkFrom compatible keys filters prefixCount).bindings.length :=
  List.length_map _

theorem length_extend_access_le :
    (extend compatible keys filters prefixCount).access.length ≤ keys.length - prefixCount := by
  have hbound := length_walk_bindings_le compatible prefixCount (keys.drop prefixCount)
    filters.zipIdx
  rw [List.length_drop] at hbound
  rw [length_extend_access_eq]
  exact hbound

/-- The conditions of an extension stand at the keys after the prefix, one by one. -/
theorem zip_drop_extend_access :
    (keys.drop prefixCount).zip (extend compatible keys filters prefixCount).access =
      (walkFrom compatible keys filters prefixCount).bindings.map
        fun binding ↦ (binding.key, binding.filter.1) := by
  let w := walkFrom compatible keys filters prefixCount
  have hkeys : w.bindings.map Binding.key = (keys.drop prefixCount).take w.bindings.length :=
    map_key_walk_bindings compatible prefixCount (keys.drop prefixCount) filters.zipIdx
  have hbound : w.bindings.length ≤ (keys.drop prefixCount).length :=
    length_walk_bindings_le compatible prefixCount (keys.drop prefixCount) filters.zipIdx
  have hlength : min (keys.drop prefixCount).length
      (w.bindings.map fun binding ↦ binding.filter.1).length = w.bindings.length := by
    rw [List.length_map, Nat.min_eq_right hbound]
  calc (keys.drop prefixCount).zip (w.bindings.map fun binding ↦ binding.filter.1)
    _ = ((keys.drop prefixCount).take w.bindings.length).zip
          ((w.bindings.map fun binding ↦ binding.filter.1).take w.bindings.length) := by
      rw [List.zip_eq_zip_take_min, hlength]
    _ = (w.bindings.map Binding.key).zip (w.bindings.map fun binding ↦ binding.filter.1) := by
      rw [hkeys, List.take_of_length_le (Nat.le_of_eq (List.length_map _))]
    _ = w.bindings.map fun binding ↦ (binding.key, binding.filter.1) := List.zip_map'

theorem perm_extend_residual_settledBy :
    let extension := extend compatible keys filters prefixCount
    filters.Perm
      (extension.residual ++ settledBy ((keys.drop prefixCount).zip extension.access)) := by
  intro extension
  let w := walkFrom compatible keys filters prefixCount
  have hperm : filters.zipIdx.Perm (w.residual ++ w.settled) :=
    perm_walk_residual_settled compatible prefixCount (keys.drop prefixCount) filters.zipIdx
  have hsettled : settledBy ((keys.drop prefixCount).zip extension.access) =
      w.settled.map Prod.fst := by
    rw [zip_drop_extend_access]
    unfold settledBy Walk.settled
    rw [List.filter_map, List.map_map, List.map_map]
    rfl
  rw [hsettled]
  calc filters
    _ = filters.zipIdx.map Prod.fst := (List.zipIdx_map_fst 0 filters).symm
    _ ~ (w.residual ++ w.settled).map Prod.fst := hperm.map Prod.fst
    _ = extension.residual ++ w.settled.map Prod.fst := List.map_append

theorem extend_residual_sublist :
    (extend compatible keys filters prefixCount).residual.Sublist filters := by
  have h := (walk_residual_sublist compatible prefixCount (keys.drop prefixCount)
    filters.zipIdx).map Prod.fst
  rw [List.zipIdx_map_fst] at h
  exact h

/-- Where every key has a column of its own, a condition on a part of a column stays a filter. -/
theorem mem_extend_residual_of_partial (distinct : (keys.map KeyColumn.id).Nodup)
    {key : KeyColumn} {condition : Expr}
    (h : (key, condition) ∈
      (keys.drop prefixCount).zip (extend compatible keys filters prefixCount).access)
    (hpartial : key.isWhole = false) :
    condition ∈ (extend compatible keys filters prefixCount).residual := by
  rw [zip_drop_extend_access] at h
  obtain ⟨binding, hbinding, heq⟩ := List.mem_map.mp h
  obtain ⟨rfl, rfl⟩ := Prod.mk.inj heq
  have hdistinct : ((keys.drop prefixCount).map KeyColumn.id).Nodup := by
    rw [List.map_drop]
    exact distinct.sublist (List.drop_sublist _ _)
  exact List.mem_map_of_mem (mem_walk_residual_of_partial hdistinct hbinding hpartial)

/-! ## Counts -/

theorem map_key_walkFrom_bindings :
    (walkFrom compatible keys filters prefixCount).bindings.map Binding.key =
      (keys.drop prefixCount).take (extend compatible keys filters prefixCount).access.length := by
  rw [length_extend_access_eq]
  exact map_key_walk_bindings compatible prefixCount (keys.drop prefixCount) filters.zipIdx

theorem length_extend_residual_add_consumed :
    let extension := extend compatible keys filters prefixCount
    extension.residual.length + extension.consumed = filters.length := by
  intro extension
  have hlength : extension.residual.length ≤ filters.length :=
    (extend_residual_sublist compatible keys filters prefixCount).length_le
  have hconsumed : extension.consumed = filters.length - extension.residual.length := by
    simp only [extension, extend, Walk.toExtension, List.length_map]
  omega

/-- Each whole key bound consumes one filter. -/
theorem extend_consumed_eq :
    let extension := extend compatible keys filters prefixCount
    extension.consumed =
      ((keys.drop prefixCount).take extension.access.length).countP KeyColumn.isWhole := by
  intro extension
  let w := walkFrom compatible keys filters prefixCount
  have hresidual : w.residual.length + w.bindings.countP (fun binding ↦ binding.key.isWhole) =
      filters.zipIdx.length :=
    length_walk_residual compatible prefixCount (keys.drop prefixCount) filters.zipIdx
  rw [List.length_zipIdx] at hresidual
  calc extension.consumed
    _ = filters.length - w.residual.length := rfl
    _ = w.bindings.countP (fun binding ↦ binding.key.isWhole) := by omega
    _ = (w.bindings.map Binding.key).countP KeyColumn.isWhole := by
      rw [List.countP_map]
      rfl
    _ = _ := congrArg _ (map_key_walkFrom_bindings compatible keys filters prefixCount)

theorem extend_partialMatches_eq :
    let extension := extend compatible keys filters prefixCount
    extension.partialMatches = ((keys.drop prefixCount).take extension.access.length).countP
      fun key ↦ !key.isWhole := by
  intro extension
  let w := walkFrom compatible keys filters prefixCount
  calc extension.partialMatches
    _ = (w.bindings.map Binding.key).countP (fun key ↦ !key.isWhole) := by
      rw [List.countP_map]
      rfl
    _ = _ := congrArg _ (map_key_walkFrom_bindings compatible keys filters prefixCount)

/-- Every key bound either settles a filter or matches a part of its column. -/
theorem length_extend_access :
    let extension := extend compatible keys filters prefixCount
    extension.access.length = extension.consumed + extension.partialMatches := by
  intro extension
  let bound := (keys.drop prefixCount).take extension.access.length
  have hbound : extension.access.length ≤ keys.length - prefixCount :=
    length_extend_access_le compatible keys filters prefixCount
  calc extension.access.length
    _ = bound.length := by rw [List.length_take, List.length_drop, Nat.min_eq_left hbound]
    _ = bound.countP KeyColumn.isWhole + bound.countP fun key ↦ !key.isWhole := by
      simpa only [Bool.not_eq_true, Bool.decide_eq_false] using
        List.length_eq_countP_add_countP KeyColumn.isWhole (l := bound)
    _ = extension.consumed + extension.partialMatches := by
      rw [extend_consumed_eq, extend_partialMatches_eq]

end

end IndexAccess.Seek
