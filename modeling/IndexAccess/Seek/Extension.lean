import IndexAccess.Index
import IndexAccess.Journal
import IndexAccess.Seek.Verdict

/-!
# Extending a prefix by seeks

The key columns after an equality prefix are walked in index order.  Each one is bound to the first
open filter that allows a seek on it, and the walk ends at the first key without such a filter: a
seek over several columns needs an unbroken prefix.  A filter bound at a key that keeps the whole
value is settled and leaves the open filters; one bound at a key that keeps only a part has to be
checked again and stays.  Along the walk a filter carries its position among the filters given.
-/

namespace IndexAccess.Seek

/-- A filter and its position among the filters given. -/
abbrev OpenFilter := Expr × Nat

structure Binding where
  slot : Nat
  key : KeyColumn
  filter : OpenFilter

/-- The first usable filter and the others in their order, with the number of incompatible ones met
before it; all incompatible ones are counted when no filter is usable. -/
structure Pick where
  found : Option (OpenFilter × List OpenFilter)
  rejected : Nat

def pick (compatible : Compatibility) (target : Column) : List OpenFilter → Pick
  | [] => ⟨none, 0⟩
  | filter :: rest =>
    let passOver (rejected : Nat) : Pick :=
      let later := pick compatible target rest
      ⟨later.found.map fun (hit, others) ↦ (hit, filter :: others), rejected + later.rejected⟩
    match judge compatible target filter.1 with
    | .usable => ⟨some (filter, rest), 0⟩
    | .incompatible => passOver 1
    | .unrelated => passOver 0

/-- The course of a walk: what it bound, which filters stayed open, where it found no filter. -/
structure Walk where
  bindings : List Binding
  residual : List OpenFilter
  gap : Option (Nat × KeyColumn)
  rejected : Nat

/-- Walks over `keys`, the first of which has position `slot` in the index. -/
def walk (compatible : Compatibility) (slot : Nat) : List KeyColumn → List OpenFilter → Walk
  | [], filters => ⟨[], filters, none, 0⟩
  | key :: keys, filters =>
    let picked := pick compatible key.column filters
    match picked.found with
    | none => ⟨[], filters, some (slot, key), picked.rejected⟩
    | some (filter, others) =>
      let later := walk compatible (slot + 1) keys (if key.isWhole then others else filters)
      { later with
        bindings := ⟨slot, key, filter⟩ :: later.bindings
        rejected := picked.rejected + later.rejected }

/-- The result of a walk.  `access` has one condition for each key bound, from the end of the
equality prefix on; `residual` has the filters that were not settled. -/
structure Extension where
  access : List Expr
  residual : List Expr
  /-- Filters settled by keys that keep the whole value. -/
  consumed : Nat
  /-- Keys bound that keep only a part of the value. -/
  partialMatches : Nat
  /-- Filters passed over for their collation alone, counted anew at every key. -/
  rejected : Nat

def walkFrom (compatible : Compatibility) (keys : List KeyColumn) (filters : List Expr)
    (prefixCount : Nat) : Walk :=
  walk compatible prefixCount (keys.drop prefixCount) filters.zipIdx

def Walk.toExtension (filterCount : Nat) (w : Walk) : Extension where
  access := w.bindings.map fun binding ↦ binding.filter.1
  residual := w.residual.map Prod.fst
  consumed := filterCount - w.residual.length
  partialMatches := w.bindings.countP fun binding ↦ !binding.key.isWhole
  rejected := w.rejected

def Walk.log (w : Walk) : List LogEvent :=
  (w.bindings.map fun binding ↦
    .columnBound binding.slot binding.key.column.name binding.filter.1) ++
  w.gap.toList.map fun (slot, key) ↦ .noSeek slot key.column.name

def extend (compatible : Compatibility) (keys : List KeyColumn) (filters : List Expr)
    (prefixCount : Nat) : Extension :=
  (walkFrom compatible keys filters prefixCount).toExtension filters.length

namespace Extension

def logEvent (prefixCount : Nat) (extension : Extension) : LogEvent :=
  .seekExtended prefixCount extension.access.length extension.consumed extension.partialMatches
    extension.residual.length

def tallyEvent (extension : Extension) : TallyEvent :=
  .extension extension.access.length extension.consumed extension.partialMatches
    extension.rejected

end Extension

/-- An extension with its events: those of the walk, and one that sums it up. -/
def reportedExtension (compatible : Compatibility) (keys : List KeyColumn) (filters : List Expr)
    (prefixCount : Nat) : Outcome Unit Extension :=
  let w := walkFrom compatible keys filters prefixCount
  let extension := w.toExtension filters.length
  ⟨.ok extension, (), w.log ++ [extension.logEvent prefixCount], [extension.tallyEvent]⟩

/-- A prefix that is longer than the index has no place to go on from. -/
structure PrefixExcess where
  prefixCount : Nat
  keys : Nat

def PrefixExcess.message (excess : PrefixExcess) : String :=
  "equality prefix " ++ toString excess.prefixCount ++ " exceeds " ++ toString excess.keys ++
    " index columns"

/-- A caller may ask for an extension only where the prefix lies within the index. -/
def requestExtension (compatible : Compatibility) (keys : List KeyColumn) (filters : List Expr)
    (prefixCount : Nat) : Except PrefixExcess (Outcome Unit Extension) :=
  if prefixCount ≤ keys.length then
    .ok (reportedExtension compatible keys filters prefixCount)
  else .error ⟨prefixCount, keys.length⟩

theorem reportedExtension_result (compatible : Compatibility) (keys : List KeyColumn)
    (filters : List Expr) (prefixCount : Nat) :
    (reportedExtension compatible keys filters prefixCount).result =
      .ok (extend compatible keys filters prefixCount) := rfl

/-! ## Laws of a walk -/

theorem length_pick_found {compatible : Compatibility} {target : Column}
    {filters others : List OpenFilter} {filter : OpenFilter}
    (h : (pick compatible target filters).found = some (filter, others)) :
    others.length + 1 = filters.length := by
  induction filters generalizing others with
  | nil => simp [pick] at h
  | cons first rest ih =>
    simp only [pick] at h
    split at h
    · simp only [Option.some.injEq, Prod.mk.injEq] at h
      simp [h.2]
    all_goals
      obtain ⟨⟨hit, later⟩, hfound, heq⟩ := Option.map_eq_some_iff.mp h
      simp only [Prod.mk.injEq] at heq
      obtain ⟨rfl, rfl⟩ := heq
      have := ih hfound
      simp only [List.length_cons]
      omega

theorem length_walk_residual (compatible : Compatibility) (slot : Nat) (keys : List KeyColumn)
    (filters : List OpenFilter) :
    let w := walk compatible slot keys filters
    w.residual.length + w.bindings.countP (fun binding ↦ binding.key.isWhole) =
      filters.length := by
  induction keys generalizing slot filters with
  | nil => simp [walk]
  | cons key keys ih =>
    simp only [walk]
    split
    · simp
    · next filter others hfound =>
      have hlength := length_pick_found hfound
      cases hwhole : key.isWhole
      · simpa [hwhole, List.countP_cons] using ih (slot + 1) filters
      · have hlater := ih (slot + 1) others
        simp only [List.countP_cons, hwhole, if_true] at hlater ⊢
        omega

end IndexAccess.Seek
