import IndexAccess.Proofs.Seek.Extension
import IndexAccess.Proofs.Seek.Placement

/-!
# Extensions over the same keys

A walk takes the first usable filter and settles it, and a walk of that kind may well be misled:
with one filter more it takes another one, which a later key then misses.  Here it is not, because a
filter is missed only at keys of its own column, where all usable filters serve alike.  So how far
an extension reaches is decided by the number of usable filters at each key, and the number of keys
bound decides the other counts.

Two consequences: more filters and a wider compatibility never bind less, and the order of the
filters decides nothing but which of several usable ones is bound.
-/

namespace IndexAccess

namespace Compatibility

/-- Whatever the first test lets through, the second one does. -/
def Within (compatible compatible' : Compatibility) : Prop :=
  ∀ left right, compatible left right = true → compatible' left right = true

theorem exact_within_byFamily : exact.Within byFamily := by
  intro left right h
  exact Bool.or_eq_true_iff.mpr (.inl h)

end Compatibility

namespace Seek

variable {compatible compatible' : Compatibility} {keys : List KeyColumn}
  {filters filters' : List Expr} {prefixCount : Nat}

/-! ## The reach of an extension -/

theorem length_usableAt (slot : Nat) :
    (usableAt compatible keys filters slot).length =
      keys[slot]?.elim 0 fun key ↦ filters.countP (allows compatible key.column) := by
  unfold usableAt
  cases keys[slot]? with
  | none => rfl
  | some key =>
    calc (usableFilters compatible key.column filters.zipIdx).length
      _ = filters.zipIdx.countP fun filter ↦ allows compatible key.column filter.1 :=
        List.countP_eq_length_filter.symm
      _ = (filters.zipIdx.map Prod.fst).countP (allows compatible key.column) := by
        rw [List.countP_map]
        rfl
      _ = filters.countP (allows compatible key.column) := by rw [List.zipIdx_map_fst]

theorem length_usableAt_le
    (h : ∀ key ∈ keys.drop prefixCount, filters.countP (allows compatible key.column) ≤
      filters'.countP (allows compatible' key.column)) {slot : Nat} (hslot : prefixCount ≤ slot) :
    (usableAt compatible keys filters slot).length ≤
      (usableAt compatible' keys filters' slot).length := by
  obtain ⟨i, rfl⟩ := Nat.exists_eq_add_of_le hslot
  rw [length_usableAt, length_usableAt, ← List.getElem?_drop]
  cases hkey : (keys.drop prefixCount)[i]? with
  | none => exact Nat.le_refl _
  | some key => exact h key (List.mem_of_getElem? hkey)

/-- With as many usable filters at each key after the prefix, an extension reaches as far. -/
theorem length_access_le (hinside : prefixCount ≤ keys.length)
    (h : ∀ key ∈ keys.drop prefixCount, filters.countP (allows compatible key.column) ≤
      filters'.countP (allows compatible' key.column)) :
    (extend compatible keys filters prefixCount).access.length ≤
      (extend compatible' keys filters' prefixCount).access.length := by
  obtain ⟨⟨hbound, hall⟩, -⟩ :=
    isGreatest_length_bindings compatible keys filters prefixCount hinside
  obtain ⟨-, hgreatest⟩ :=
    isGreatest_length_bindings compatible' keys filters' prefixCount hinside
  calc (extend compatible keys filters prefixCount).access.length
    _ = (walkFrom compatible keys filters prefixCount).bindings.length :=
      length_extend_access_eq ..
    _ ≤ (walkFrom compatible' keys filters' prefixCount).bindings.length :=
      hgreatest ⟨hbound, fun slot hlower hupper ↦
        (hall slot hlower hupper).trans_le (length_usableAt_le h hlower)⟩
    _ = (extend compatible' keys filters' prefixCount).access.length :=
      (length_extend_access_eq ..).symm

/-- An extension that reaches as far consumes and matches as much. -/
theorem counts_le_of_length_le
    (h : (extend compatible keys filters prefixCount).access.length ≤
      (extend compatible' keys filters' prefixCount).access.length) :
    (extend compatible keys filters prefixCount).consumed ≤
        (extend compatible' keys filters' prefixCount).consumed ∧
      (extend compatible keys filters prefixCount).partialMatches ≤
        (extend compatible' keys filters' prefixCount).partialMatches := by
  have hkeys := List.take_sublist_take_left (l := keys.drop prefixCount) h
  constructor
  · rw [extend_consumed_eq, extend_consumed_eq]
    exact hkeys.countP_le
  · rw [extend_partialMatches_eq, extend_partialMatches_eq]
    exact hkeys.countP_le

/-! ## More filters and a wider compatibility -/

/-- Whether operands are related to a column is no matter of the compatibility. -/
theorem judgeSides_eq_unrelated_iff {target : Column} {collation : Collation} {side value : Expr} :
    judgeSides compatible target collation side value = .unrelated ↔
      judgeSides compatible' target collation side value = .unrelated :=
  not_iff_not.mp (judgeSides_ne_unrelated_iff.trans judgeSides_ne_unrelated_iff.symm)

theorem judgeSides_usable_of_within (h : compatible.Within compatible') {target : Column}
    {collation : Collation} {side value : Expr}
    (husable : judgeSides compatible target collation side value = .usable) :
    judgeSides compatible' target collation side value = .usable := by
  obtain ⟨hrelated, hcertified⟩ := judgeSides_eq_usable_iff.mp husable
  refine judgeSides_eq_usable_iff.mpr ⟨?_, fun hstring ↦ h _ _ (hcertified hstring)⟩
  exact fun hunrelated ↦ hrelated (judgeSides_eq_unrelated_iff.mpr hunrelated)

/-- The other operand order comes into play under both tests or under neither. -/
theorem allows_of_within (h : compatible.Within compatible') {target : Column} {filter : Expr}
    (hallows : allows compatible target filter = true) :
    allows compatible' target filter = true := by
  have husable := judge_of_allows hallows
  apply allows_of_judge
  unfold judge at husable ⊢
  split at husable
  · next left right collation =>
    split at husable
    · next hleft =>
      have hleft' : judgeSides compatible' target collation left right = .unrelated :=
        judgeSides_eq_unrelated_iff.mp hleft
      simp only [hleft']
      exact judgeSides_usable_of_within h husable
    · next hleft => simp only [judgeSides_usable_of_within h husable]
  · cases husable

/-- More filters under a wider compatibility bind as many keys, settle as many filters and match as
many parts of columns. -/
theorem requestExtension_monotone (compatible compatible' : Compatibility) (keys : List KeyColumn)
    (filters filters' : List Expr) (prefixCount : Nat) (hwithin : compatible.Within compatible')
    (hfilters : filters.Sublist filters') (h : prefixCount ≤ keys.length) :
    ∃ extension extension', Yields compatible keys filters prefixCount extension ∧
      Yields compatible' keys filters' prefixCount extension' ∧
        extension.access.length ≤ extension'.access.length ∧
          extension.consumed ≤ extension'.consumed ∧
            extension.partialMatches ≤ extension'.partialMatches := by
  have hlength : (extend compatible keys filters prefixCount).access.length ≤
      (extend compatible' keys filters' prefixCount).access.length := by
    refine length_access_le h fun key _ ↦ ?_
    calc filters.countP (allows compatible key.column)
      _ ≤ filters'.countP (allows compatible key.column) := hfilters.countP_le
      _ ≤ filters'.countP (allows compatible' key.column) :=
        List.countP_mono_left fun _ _ hallows ↦ allows_of_within hwithin hallows
  exact ⟨_, _, yields_extend compatible keys filters prefixCount h,
    yields_extend compatible' keys filters' prefixCount h, hlength, counts_le_of_length_le hlength⟩

/-- Ten characters of a text, compared under a collation of bytes, and a number. -/
def textKeys : List KeyColumn :=
  [⟨⟨1, "t", ⟨.varchar, ⟨"utf8mb4_bin"⟩⟩⟩, some 10⟩, ⟨⟨2, "n", .plain .int⟩, none⟩]

/-- The text equated without regard to case, the number, and the text equated by its bytes. -/
def textFilters : List Expr :=
  let text : Expr := .column ⟨1, "t", ⟨.varchar, ⟨"utf8mb4_bin"⟩⟩⟩
  let value : Expr := .constant (.text "x") ⟨.varchar, ⟨"utf8mb4_general_ci"⟩⟩
  let number : Expr := .constant (.int 5) (.plain .int)
  [.call .eq [text, value] ⟨"utf8mb4_general_ci"⟩,
    .call .eq [number, .column ⟨2, "n", .plain .int⟩] .binary,
    .call .eq [text, value] ⟨"utf8_bin"⟩]

theorem requestExtension_monotone_textFilters :
    Compatibility.exact.Within .byFamily ∧ (textFilters.drop 1).Sublist textFilters ∧
      0 ≤ textKeys.length ∧
        ∃ extension extension', Yields .exact textKeys (textFilters.drop 1) 0 extension ∧
          Yields .byFamily textKeys textFilters 0 extension' ∧
            extension.access.length ≤ extension'.access.length ∧
              extension.consumed ≤ extension'.consumed ∧
                extension.partialMatches ≤ extension'.partialMatches :=
  ⟨Compatibility.exact_within_byFamily, List.drop_sublist 1 _, Nat.zero_le _,
    requestExtension_monotone .exact .byFamily textKeys (textFilters.drop 1) textFilters 0
      Compatibility.exact_within_byFamily (List.drop_sublist 1 _) (Nat.zero_le _)⟩

/-- No filter is exactly compatible with the text, so the number is never reached. -/
example :
    (extend .exact textKeys (textFilters.drop 1) 0).access.length = 0 ∧
      (extend .byFamily textKeys textFilters 0).access.length = 2 := by
  decide

/-! ## Filters in another order -/

theorem mem_of_getElem?_extend_access {i : Nat} {condition : Expr}
    (h : (extend compatible keys filters prefixCount).access[i]? = some condition) :
    condition ∈ filters := by
  obtain ⟨binding, hbinding, rfl⟩ := List.mem_map.mp (List.mem_of_getElem? h)
  exact List.mem_of_getElem? (getElem?_position_of_mem hbinding)

/-- What holds at one place of a list at most holds of one element at most. -/
theorem eq_of_countP_le_one {α : Type} {p : α → Bool} {as : List α} (h : as.countP p ≤ 1)
    {first second : α} (hfirst : first ∈ as) (hp : p first = true) (hsecond : second ∈ as)
    (hp' : p second = true) : first = second := by
  have hfirst' : first ∈ as.filter p := List.mem_filter.mpr ⟨hfirst, hp⟩
  have hsecond' : second ∈ as.filter p := List.mem_filter.mpr ⟨hsecond, hp'⟩
  rw [List.countP_eq_length_filter] at h
  match as.filter p, h, hfirst', hsecond' with
  | [_], _, hfirst', hsecond' =>
    rw [List.mem_singleton.mp hfirst', List.mem_singleton.mp hsecond']

/-- Where one filter at most is usable at each key, its place among the filters is no matter. -/
theorem access_eq_of_perm (hfilters : filters.Perm filters')
    (hone : ∀ key ∈ keys.drop prefixCount, filters.countP (allows compatible key.column) ≤ 1)
    (hlength : (extend compatible keys filters prefixCount).access.length =
      (extend compatible keys filters' prefixCount).access.length) :
    (extend compatible keys filters prefixCount).access =
      (extend compatible keys filters' prefixCount).access := by
  refine List.ext_getElem hlength ?_
  intro i hi hi'
  have hget := List.getElem?_eq_getElem hi
  have hget' := List.getElem?_eq_getElem hi'
  obtain ⟨key, hkey, husable⟩ := judge_of_getElem?_extend_access compatible keys filters _ hget
  obtain ⟨key', hkey', husable'⟩ := judge_of_getElem?_extend_access compatible keys filters' _ hget'
  obtain rfl : key = key' := Option.some.inj (hkey.symm.trans hkey')
  rw [← List.getElem?_drop] at hkey
  have hgiven' := hfilters.symm.subset (mem_of_getElem?_extend_access hget')
  exact eq_of_countP_le_one (hone key (List.mem_of_getElem? hkey))
    (mem_of_getElem?_extend_access hget) (allows_of_judge husable) hgiven'
    (allows_of_judge husable')

theorem residual_perm_of_access_eq (hfilters : filters.Perm filters')
    (haccess : (extend compatible keys filters prefixCount).access =
      (extend compatible keys filters' prefixCount).access) :
    (extend compatible keys filters prefixCount).residual.Perm
      (extend compatible keys filters' prefixCount).residual := by
  let extension := extend compatible keys filters prefixCount
  let extension' := extend compatible keys filters' prefixCount
  let settled := settledBy ((keys.drop prefixCount).zip extension.access)
  have hparts : filters.Perm (extension.residual ++ settled) :=
    perm_extend_residual_settledBy compatible keys filters prefixCount
  have hparts' : filters'.Perm (extension'.residual ++ settled) := by
    simp only [settled, extension, haccess]
    exact perm_extend_residual_settledBy compatible keys filters' prefixCount
  exact (List.perm_append_right_iff settled).mp (hparts.symm.trans (hfilters.trans hparts'))

/-- The order of the filters changes none of the counts.  Where no key has a choice, it changes
neither what is bound nor, but for its order, what is kept. -/
theorem requestExtension_of_perm (compatible : Compatibility) (keys : List KeyColumn)
    (filters filters' : List Expr) (prefixCount : Nat) (hfilters : filters.Perm filters')
    (h : prefixCount ≤ keys.length) :
    ∃ extension extension', Yields compatible keys filters prefixCount extension ∧
      Yields compatible keys filters' prefixCount extension' ∧
        extension.access.length = extension'.access.length ∧
          extension.consumed = extension'.consumed ∧
            extension.partialMatches = extension'.partialMatches ∧
              extension.residual.length = extension'.residual.length ∧
        ((∀ key ∈ keys.drop prefixCount, filters.countP (allows compatible key.column) ≤ 1) →
          extension.access = extension'.access ∧
            extension.residual.Perm extension'.residual) := by
  have hcounts (key : KeyColumn) : filters.countP (allows compatible key.column) =
      filters'.countP (allows compatible key.column) := hfilters.countP_eq _
  have hlength : (extend compatible keys filters prefixCount).access.length =
      (extend compatible keys filters' prefixCount).access.length :=
    Nat.le_antisymm (length_access_le h fun key _ ↦ (hcounts key).le)
      (length_access_le h fun key _ ↦ (hcounts key).ge)
  obtain ⟨hconsumed, hpartial⟩ := counts_le_of_length_le hlength.le
  obtain ⟨hconsumed', hpartial'⟩ := counts_le_of_length_le hlength.ge
  have hkept := length_extend_residual_add_consumed compatible keys filters prefixCount
  have hkept' := length_extend_residual_add_consumed compatible keys filters' prefixCount
  have hfilterCount : filters.length = filters'.length := hfilters.length_eq
  refine ⟨_, _, yields_extend compatible keys filters prefixCount h,
    yields_extend compatible keys filters' prefixCount h, hlength,
    Nat.le_antisymm hconsumed hconsumed', Nat.le_antisymm hpartial hpartial', by omega, ?_⟩
  intro hone
  have haccess := access_eq_of_perm hfilters hone hlength
  exact ⟨haccess, residual_perm_of_access_eq hfilters haccess⟩

theorem requestExtension_of_perm_textFilters :
    textFilters.Perm textFilters.reverse ∧ 0 ≤ textKeys.length ∧
      (∀ key ∈ textKeys.drop 0, textFilters.countP (allows .byFamily key.column) ≤ 1) ∧
        ∃ extension extension', Yields .byFamily textKeys textFilters 0 extension ∧
          Yields .byFamily textKeys textFilters.reverse 0 extension' ∧
            extension.access.length = 2 ∧ extension.consumed = extension'.consumed ∧
              extension.partialMatches = extension'.partialMatches ∧
                extension.residual.length = extension'.residual.length ∧
                  extension.access = extension'.access ∧
                    extension.residual.Perm extension'.residual := by
  have hone : ∀ key ∈ textKeys.drop 0,
      textFilters.countP (allows .byFamily key.column) ≤ 1 := by
    decide
  obtain ⟨extension, extension', hyields, hyields', -, hconsumed, hpartial, hresidual, hsame⟩ :=
    requestExtension_of_perm .byFamily textKeys textFilters textFilters.reverse 0
      (List.reverse_perm _).symm (Nat.zero_le _)
  have hlength : extension.access.length = 2 := by
    rw [(yields_iff (Nat.zero_le _)).mp hyields]
    decide
  exact ⟨(List.reverse_perm _).symm, Nat.zero_le _, hone, extension, extension', hyields, hyields',
    hlength, hconsumed, hpartial, hresidual, hsame hone⟩

end Seek

end IndexAccess
