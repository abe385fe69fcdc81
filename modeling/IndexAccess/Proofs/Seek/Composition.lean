import IndexAccess.Proofs.Seek.Extension
import IndexAccess.Proofs.Seek.Placement

/-!
# Extensions in stages

An extension over some keys and further ones can be made in two stages.  Where the walk over the
first keys meets a gap, further keys are never reached.  Where it binds all of them, it goes on over
the further keys with the filters that are still open, and nothing else is carried over.

The second stage sees a shorter list of filters, numbered anew.  Positions only tell filters apart:
no verdict looks at them, so a walk over renumbered filters binds, keeps and rejects the same ones.
-/

namespace IndexAccess.Seek

variable {compatible : Compatibility}

/-! ## Filters without positions -/

def OpenFilter.unplaced (filter : OpenFilter) : OpenFilter := (filter.1, 0)

def Walk.unplaced (w : Walk) : Walk := w.map id OpenFilter.unplaced

/-- An extension has forgotten the positions of its filters. -/
theorem toExtension_unplaced (filterCount : Nat) (w : Walk) :
    w.unplaced.toExtension filterCount = w.toExtension filterCount := by
  simp only [Walk.toExtension, Walk.unplaced, Walk.map, List.map_map, List.length_map,
    List.countP_map]
  rfl

theorem unplaced_walk (slot : Nat) (keys : List KeyColumn) (filters : List OpenFilter) :
    (walk compatible slot keys filters).unplaced =
      walk compatible slot keys (filters.map OpenFilter.unplaced) := by
  have himage : walk compatible slot (keys.map id) (filters.map OpenFilter.unplaced) =
      (walk compatible slot keys filters).unplaced :=
    walk_map id OpenFilter.unplaced (fun _ _ ↦ rfl) (fun _ ↦ rfl) slot keys filters
  rw [← himage, List.map_id]

/-- Walks over the same filters at other positions lead to the same extension. -/
theorem toExtension_walk_congr {filters filters' : List OpenFilter}
    (h : filters.map Prod.fst = filters'.map Prod.fst) (slot filterCount : Nat)
    (keys : List KeyColumn) :
    (walk compatible slot keys filters).toExtension filterCount =
      (walk compatible slot keys filters').toExtension filterCount := by
  have hunplaced : filters.map OpenFilter.unplaced = filters'.map OpenFilter.unplaced := by
    have hzero := congrArg (List.map fun filter ↦ (filter, 0)) h
    rwa [List.map_map, List.map_map] at hzero
  rw [← toExtension_unplaced, unplaced_walk, hunplaced, ← unplaced_walk, toExtension_unplaced]

/-! ## A walk and what follows it -/

/-- The bindings of both walks, with the open filters and the gap of the later one. -/
def Walk.followedBy (first later : Walk) : Walk where
  bindings := first.bindings ++ later.bindings
  residual := later.residual
  gap := later.gap
  rejected := first.rejected + later.rejected

theorem walk_gap_eq_none_iff {slot : Nat} {keys : List KeyColumn} {filters : List OpenFilter} :
    let w := walk compatible slot keys filters
    w.gap = none ↔ w.bindings.length = keys.length := by
  fun_induction walk compatible slot keys filters with
  | case1 => simp
  | case2 => simp
  | case3 slot key keys filters picked found others hfound later ih => simpa using ih

/-- Past a gap no key is looked at. -/
theorem walk_append_of_gap {slot : Nat} {keys : List KeyColumn} {filters : List OpenFilter}
    (h : (walk compatible slot keys filters).gap ≠ none) (more : List KeyColumn) :
    walk compatible slot (keys ++ more) filters = walk compatible slot keys filters := by
  fun_induction walk compatible slot keys filters with
  | case1 => exact absurd rfl h
  | case2 slot key keys filters picked hfound =>
    simp only [List.cons_append, walk, picked, hfound]
  | case3 slot key keys filters picked found others hfound later ih =>
    simp only [List.cons_append, walk, picked, hfound]
    rw [ih h]

/-- A walk without a gap goes on with the filters that it leaves open. -/
theorem walk_append_of_unbroken {slot : Nat} {keys : List KeyColumn} {filters : List OpenFilter}
    (h : (walk compatible slot keys filters).gap = none) (more : List KeyColumn) :
    let first := walk compatible slot keys filters
    walk compatible slot (keys ++ more) filters =
      first.followedBy (walk compatible (slot + keys.length) more first.residual) := by
  fun_induction walk compatible slot keys filters with
  | case1 slot filters => simp [Walk.followedBy]
  | case2 => exact absurd h (Option.some_ne_none _)
  | case3 slot key keys filters picked found others hfound later ih =>
    simp only [List.cons_append, walk, picked, hfound]
    rw [ih h]
    simp [Walk.followedBy, later, Nat.add_assoc, Nat.add_comm 1]

/-- Where a walk stops, its open filters do not lead on. -/
theorem walk_residual_stops (compatible : Compatibility) (slot slot' : Nat) (keys : List KeyColumn)
    (filters : List OpenFilter) :
    let w := walk compatible slot keys filters
    let again := walk compatible slot' (keys.drop w.bindings.length) w.residual
    again.bindings = [] ∧ again.residual = w.residual := by
  fun_induction walk compatible slot keys filters with
  | case1 => exact ⟨rfl, rfl⟩
  | case2 slot key keys filters picked hfound =>
    simp only [List.length_nil, List.drop_zero, walk, picked, hfound, and_self]
  | case3 slot key keys filters picked found others hfound later ih => exact ih

/-! ## Extensions -/

/-- The conditions of both extensions and the filters that the later one leaves, with the counts
added up. -/
def Extension.followedBy (first later : Extension) : Extension where
  access := first.access ++ later.access
  residual := later.residual
  consumed := first.consumed + later.consumed
  partialMatches := first.partialMatches + later.partialMatches
  rejected := first.rejected + later.rejected

theorem toExtension_followedBy {first later : Walk} {filterCount : Nat}
    (hfirst : first.residual.length ≤ filterCount)
    (hlater : later.residual.length ≤ first.residual.length) :
    (first.followedBy later).toExtension filterCount =
      (first.toExtension filterCount).followedBy (later.toExtension first.residual.length) := by
  have hconsumed : filterCount - later.residual.length =
      (filterCount - first.residual.length) +
        (first.residual.length - later.residual.length) := by omega
  simp only [Walk.toExtension, Walk.followedBy, Extension.followedBy, List.map_append,
    List.countP_append, hconsumed]

section

variable (compatible) {keys : List KeyColumn} {filters : List Expr} {prefixCount : Nat}

/-- An extension of what a walk leaves open is the same over the positions of the walk. -/
theorem extend_residual_eq_toExtension (w : Walk) (keys : List KeyColumn) (prefixCount : Nat) :
    extend compatible keys (w.residual.map Prod.fst) prefixCount =
      (walk compatible prefixCount (keys.drop prefixCount) w.residual).toExtension
        w.residual.length := by
  unfold extend walkFrom
  rw [List.length_map]
  exact toExtension_walk_congr (List.zipIdx_map_fst 0 _) ..

theorem gap_eq_none_iff_length_access :
    (walkFrom compatible keys filters prefixCount).gap = none ↔
      (extend compatible keys filters prefixCount).access.length = keys.length - prefixCount := by
  rw [length_extend_access_eq, ← List.length_drop]
  exact walk_gap_eq_none_iff

theorem walkFrom_append_of_gap (h : prefixCount ≤ keys.length) (more : List KeyColumn)
    (hgap : (walkFrom compatible keys filters prefixCount).gap ≠ none) :
    walkFrom compatible (keys ++ more) filters prefixCount =
      walkFrom compatible keys filters prefixCount := by
  unfold walkFrom
  rw [List.drop_append_of_le_length h]
  exact walk_append_of_gap hgap more

theorem walkFrom_append_of_unbroken (h : prefixCount ≤ keys.length) (more : List KeyColumn)
    (hunbroken : (walkFrom compatible keys filters prefixCount).gap = none) :
    let first := walkFrom compatible keys filters prefixCount
    walkFrom compatible (keys ++ more) filters prefixCount =
      first.followedBy (walk compatible keys.length more first.residual) := by
  have hslot : prefixCount + (keys.drop prefixCount).length = keys.length := by
    rw [List.length_drop]
    omega
  have happend := walk_append_of_unbroken hunbroken more
  rw [hslot] at happend
  unfold walkFrom
  rw [List.drop_append_of_le_length h]
  exact happend

theorem extend_append_of_gap (h : prefixCount ≤ keys.length) (more : List KeyColumn)
    (hsome : (extend compatible keys filters prefixCount).access.length ≠
      keys.length - prefixCount) :
    extend compatible (keys ++ more) filters prefixCount =
      extend compatible keys filters prefixCount := by
  have hgap : (walkFrom compatible keys filters prefixCount).gap ≠ none :=
    fun hnone ↦ hsome ((gap_eq_none_iff_length_access compatible).mp hnone)
  exact congrArg _ (walkFrom_append_of_gap compatible h more hgap)

theorem extend_append_of_unbroken (h : prefixCount ≤ keys.length) (more : List KeyColumn)
    (hall : (extend compatible keys filters prefixCount).access.length =
      keys.length - prefixCount) :
    let first := extend compatible keys filters prefixCount
    extend compatible (keys ++ more) filters prefixCount =
      first.followedBy (extend compatible (keys ++ more) first.residual keys.length) := by
  intro first
  let w := walkFrom compatible keys filters prefixCount
  let later := walk compatible keys.length more w.residual
  have hunbroken : w.gap = none := (gap_eq_none_iff_length_access compatible).mpr hall
  have hresidual : w.residual.length ≤ filters.length :=
    Nat.le_trans (walk_residual_sublist compatible prefixCount _ filters.zipIdx).length_le
      (Nat.le_of_eq List.length_zipIdx)
  have hlater : later.residual.length ≤ w.residual.length :=
    (walk_residual_sublist compatible keys.length more w.residual).length_le
  have hextend : extend compatible (keys ++ more) first.residual keys.length =
      later.toExtension w.residual.length := by
    have hkeys := extend_residual_eq_toExtension compatible w (keys ++ more) keys.length
    rwa [List.drop_left] at hkeys
  calc extend compatible (keys ++ more) filters prefixCount
    _ = (w.followedBy later).toExtension filters.length :=
      congrArg _ (walkFrom_append_of_unbroken compatible h more hunbroken)
    _ = first.followedBy (later.toExtension w.residual.length) :=
      toExtension_followedBy hresidual hlater
    _ = first.followedBy (extend compatible (keys ++ more) first.residual keys.length) := by
      rw [hextend]

theorem extend_residual_again :
    let first := extend compatible keys filters prefixCount
    let again := extend compatible keys first.residual (prefixCount + first.access.length)
    again.access = [] ∧ again.residual = first.residual := by
  intro first again
  let w := walkFrom compatible keys filters prefixCount
  have hlength : first.access.length = w.bindings.length :=
    length_extend_access_eq compatible keys filters prefixCount
  obtain ⟨hbindings, hresidual⟩ := walk_residual_stops compatible prefixCount
    (prefixCount + w.bindings.length) (keys.drop prefixCount) filters.zipIdx
  have hagain : again = (walk compatible (prefixCount + w.bindings.length)
      ((keys.drop prefixCount).drop w.bindings.length) w.residual).toExtension
        w.residual.length := by
    rw [List.drop_drop, ← hlength]
    exact extend_residual_eq_toExtension compatible w keys _
  constructor
  · rw [hagain]
    exact congrArg (List.map fun binding ↦ binding.filter.1) hbindings
  · rw [hagain]
    exact congrArg (List.map Prod.fst) hresidual

end

/-- An extension over some keys and further ones is that over the first keys, followed by that of
its residual filters over the further keys if all the first ones are bound.  Asked for again where
it ended, an extension binds nothing and keeps what it kept. -/
theorem requestExtension_append (compatible : Compatibility) (keys more : List KeyColumn)
    (filters : List Expr) (prefixCount : Nat) (h : prefixCount ≤ keys.length) :
    ∃ first, Yields compatible keys filters prefixCount first ∧
      (first.access.length = keys.length - prefixCount →
        ∃ later, Yields compatible (keys ++ more) first.residual keys.length later ∧
          Yields compatible (keys ++ more) filters prefixCount (first.followedBy later)) ∧
      (first.access.length ≠ keys.length - prefixCount →
        Yields compatible (keys ++ more) filters prefixCount first) ∧
      ∃ again, Yields compatible keys first.residual (prefixCount + first.access.length) again ∧
        again.access = [] ∧ again.residual = first.residual := by
  have hmore : keys.length ≤ (keys ++ more).length := by
    rw [List.length_append]
    exact Nat.le_add_right ..
  have hbound := length_extend_access_le compatible keys filters prefixCount
  refine ⟨_, yields_extend compatible keys filters prefixCount h, ?_, ?_, ?_⟩
  · intro hall
    refine ⟨_, yields_extend compatible (keys ++ more) _ keys.length hmore, ?_⟩
    rw [yields_iff (Nat.le_trans h hmore)]
    exact (extend_append_of_unbroken compatible h more hall).symm
  · intro hsome
    rw [yields_iff (Nat.le_trans h hmore)]
    exact (extend_append_of_gap compatible h more hsome).symm
  · have hend : prefixCount + (extend compatible keys filters prefixCount).access.length ≤
        keys.length := by omega
    exact ⟨_, yields_extend compatible keys _ _ hend, extend_residual_again compatible⟩

/-- All keys of one column are bound and the walk goes on to another key of it; in the other order
the walk never comes to them. -/
theorem requestExtension_append_repeatedKeys :
    1 ≤ repeatedKeys.length ∧ 1 ≤ mixedKeys.length ∧
      (∃ first later again, Yields .byFamily repeatedKeys repeatedEqualities 1 first ∧
        first.access.length = 3 ∧
          Yields .byFamily (repeatedKeys ++ mixedKeys) first.residual 4 later ∧
            Yields .byFamily (repeatedKeys ++ mixedKeys) repeatedEqualities 1
              (first.followedBy later) ∧
              Yields .byFamily repeatedKeys first.residual (1 + first.access.length) again ∧
                again.access = [] ∧ again.residual = first.residual) ∧
        ∃ first, Yields .byFamily mixedKeys repeatedEqualities 1 first ∧
          first.access.length = 0 ∧
            Yields .byFamily (mixedKeys ++ repeatedKeys) repeatedEqualities 1 first := by
  have hkeys : 1 ≤ repeatedKeys.length := by decide
  have hmixed : 1 ≤ mixedKeys.length := by decide
  refine ⟨hkeys, hmixed, ?_, ?_⟩
  · obtain ⟨first, hfirst, hunbroken, -, again, hagain⟩ :=
      requestExtension_append .byFamily repeatedKeys mixedKeys repeatedEqualities 1 hkeys
    have hlength : first.access.length = 3 := by
      rw [(yields_iff hkeys).mp hfirst]
      decide
    obtain ⟨later, hlater, hboth⟩ := hunbroken hlength
    exact ⟨first, later, again, hfirst, hlength, hlater, hboth, hagain⟩
  · obtain ⟨first, hfirst, -, hgap, -⟩ :=
      requestExtension_append .byFamily mixedKeys repeatedKeys repeatedEqualities 1 hmixed
    have hlength : first.access.length = 0 := by
      rw [(yields_iff hmixed).mp hfirst]
      decide
    exact ⟨first, hfirst, hlength, hgap (by rw [hlength]; decide)⟩

end IndexAccess.Seek
