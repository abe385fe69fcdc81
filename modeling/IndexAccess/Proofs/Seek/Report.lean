import IndexAccess.Proofs.Seek.Extension
import IndexAccess.Proofs.Seek.Placement

/-!
# The report of an extension

An extension is told three times: by its result, by what is logged along the walk, and by one event
for the counters.  The log is written key by key while the walk goes on, and the counts are taken
when it has ended.  That the three agree is a matter of the whole walk: whatever it has bound so far
has been logged in the same order, and a gap is logged exactly where keys are left.
-/

namespace IndexAccess.Seek

/-! ## The log of a walk -/

/-- One event for each key bound, with its slot, its column and the condition that it is bound to;
the first key has position `slot`. -/
def boundEvents (slot : Nat) (keys : List KeyColumn) (access : List Expr) : List LogEvent :=
  ((keys.zip access).zipIdx slot).map fun ((key, condition), place) ↦
    .columnBound place key.column.name condition

/-- One event for the first of the keys that are left, unless none is left. -/
def gapEvents (slot : Nat) (left : List KeyColumn) : List LogEvent :=
  left.head?.toList.map fun key ↦ .noSeek slot key.column.name

/-- What a walk has logged is what it has bound, and a gap if keys are left. -/
theorem log_walk (compatible : Compatibility) (slot : Nat) (keys : List KeyColumn)
    (filters : List OpenFilter) :
    let w := walk compatible slot keys filters
    w.log = boundEvents slot keys (w.bindings.map fun binding ↦ binding.filter.1) ++
      gapEvents (slot + w.bindings.length) (keys.drop w.bindings.length) := by
  -- By the walk's own recursion: no keys are left, the first is a gap, or it is bound.
  fun_induction walk compatible slot keys filters with
  | case1 => rfl
  | case2 => rfl
  | case3 slot key keys filters picked found others hfound later ih =>
    have hlater : later.log =
        boundEvents (slot + 1) keys (later.bindings.map fun binding ↦ binding.filter.1) ++
          gapEvents (slot + 1 + later.bindings.length) (keys.drop later.bindings.length) := ih
    have hreached : slot + 1 + later.bindings.length = slot + (later.bindings.length + 1) := by
      omega
    rw [hreached] at hlater
    exact congrArg (LogEvent.columnBound slot key.column.name found.1 :: ·) hlater

/-! ## The report -/

/-- An outcome whose log and count are those of the extension that it returns. -/
structure Reports (keys : List KeyColumn) (prefixCount : Nat) (extension : Extension)
    (outcome : Outcome Unit Extension) : Prop where
  result : outcome.result = .ok extension
  within : prefixCount + extension.access.length ≤ keys.length
  log : outcome.log =
    boundEvents prefixCount (keys.drop prefixCount) extension.access ++
      gapEvents (prefixCount + extension.access.length)
        (keys.drop (prefixCount + extension.access.length)) ++
      [.seekExtended prefixCount extension.access.length extension.consumed
        extension.partialMatches extension.residual.length]
  tally : outcome.tally =
    [.extension extension.access.length extension.consumed extension.partialMatches
      extension.rejected]

theorem reports_reportedExtension (compatible : Compatibility) {keys : List KeyColumn}
    (filters : List Expr) {prefixCount : Nat} (h : prefixCount ≤ keys.length) :
    Reports keys prefixCount (extend compatible keys filters prefixCount)
      (reportedExtension compatible keys filters prefixCount) where
  result := rfl
  within := by
    have hbound := length_extend_access_le compatible keys filters prefixCount
    omega
  log := by
    let w := walkFrom compatible keys filters prefixCount
    have hlog : w.log =
        boundEvents prefixCount (keys.drop prefixCount)
            (w.bindings.map fun binding ↦ binding.filter.1) ++
          gapEvents (prefixCount + w.bindings.length)
            ((keys.drop prefixCount).drop w.bindings.length) :=
      log_walk compatible prefixCount (keys.drop prefixCount) filters.zipIdx
    rw [List.drop_drop, ← length_extend_access_eq] at hlog
    exact congrArg (· ++ [(w.toExtension filters.length).logEvent prefixCount]) hlog
  tally := rfl

/-- Every request within the index is answered, and the answer is reported as it is: one event for
each condition, at the slots from the prefix on; one for the first key that is left, if there is
one; and the counts, once in the log and once for the counters. -/
theorem requestExtension_reports (compatible : Compatibility) (keys : List KeyColumn)
    (filters : List Expr) (prefixCount : Nat) (h : prefixCount ≤ keys.length) :
    ∃ outcome extension, requestExtension compatible keys filters prefixCount = .ok outcome ∧
      Reports keys prefixCount extension outcome :=
  ⟨_, _, if_pos h, reports_reportedExtension compatible filters h⟩

/-- A part of one column and the whole of the next are bound, and the walk stops at the first key
again. -/
theorem requestExtension_reports_mixedKeys :
    1 ≤ (mixedKeys ++ mixedKeys).length ∧
      ∃ outcome extension,
        requestExtension .byFamily (mixedKeys ++ mixedKeys) repeatedFilters 1 = .ok outcome ∧
          Reports (mixedKeys ++ mixedKeys) 1 extension outcome :=
  ⟨by decide,
    requestExtension_reports .byFamily (mixedKeys ++ mixedKeys) repeatedFilters 1 (by decide)⟩

/-- The condition on a part of its column is bound and remains. -/
example :
    (reportedExtension .byFamily (mixedKeys ++ mixedKeys) repeatedFilters 1).log.map
        LogEvent.fields =
      [[("slot", "1"), ("column", "b"), ("filter", "eq(b, NaN)")],
        [("slot", "2"), ("column", "c"), ("filter", "eq(5, c)")],
        [("slot", "3"), ("column", "a")],
        [("eq_or_in_count", "1"), ("bound", "2"), ("consumed", "1"), ("prefix_matches", "1"),
          ("remained", "2")]] := by
  decide

end IndexAccess.Seek
