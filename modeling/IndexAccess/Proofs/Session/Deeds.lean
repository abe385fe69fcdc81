import IndexAccess.Counters
import IndexAccess.Proofs.Candidates.History
import IndexAccess.Proofs.Seek.Extension
import Mathlib.Algebra.BigOperators.Group.List.Basic
import Mathlib.Algebra.GroupWithZero.Nat

/-!
# Deeds and their totals

The deeds that the counters are to tell of are the extensions made, for a path or on direct request,
the unions made, and the selections, each with the number of members that it discarded.  What an
operation has done is read from its result and from the states before and after it; the tally events
that it reports do not enter into it, and are shown to be those of its deeds.
-/

namespace IndexAccess

inductive Deed where
  | extended (extension : Seek.Extension)
  | united (branches : Nat)
  | selected (discarded : Nat)

namespace Deed

def event : Deed → TallyEvent
  | .extended extension => extension.tallyEvent
  | .united branches => .union branches
  | .selected discarded => .selection discarded

def extension? : Deed → Option Seek.Extension
  | .extended extension => some extension
  | .united _ => none
  | .selected _ => none

def isUnion : Deed → Bool
  | .extended _ => false
  | .united _ => true
  | .selected _ => false

def discarded? : Deed → Option Nat
  | .extended _ => none
  | .united _ => none
  | .selected discarded => some discarded

end Deed

/-! ## Single operations -/

namespace Path

/-- The extension made for a path, unless the operation is refused or passes the path on because a
range condition stands after the prefix. -/
def extensionDeeds (path : Path) (compatible : Compatibility) : List Deed :=
  if (path.extendSeek compatible).result.isOk ∧ path.conditions.length = path.prefixCount then
    [.extended (Seek.extend compatible path.keys path.tableFilters path.prefixCount)]
  else []

theorem tally_extendSeek (path : Path) (compatible : Compatibility) :
    (path.extendSeek compatible).tally = (path.extensionDeeds compatible).map Deed.event := by
  unfold extensionDeeds
  obtain ⟨error, hrefused⟩ | ⟨_, -, -, hranged, hskipped⟩ |
    ⟨index, hindex, -, hprefixCount, -, hextended⟩ := path.extendSeek_cases compatible
  · rw [hrefused, if_neg fun hok ↦ Bool.false_ne_true hok.1]
    rfl
  · rw [hskipped, if_neg fun hok ↦ hranged hok.2]
    rfl
  · rw [hextended, if_pos ⟨rfl, hprefixCount⟩, keys_of_index? hindex]
    rfl

def unionDeeds (settings : Settings) (partials : List Path) (disjunctive : Bool)
    (filters : List Expr) : List Deed :=
  if (union settings partials disjunctive filters).result.isOk then [.united partials.length]
  else []

theorem tally_union (settings : Settings) (partials : List Path) (disjunctive : Bool)
    (filters : List Expr) :
    (union settings partials disjunctive filters).tally =
      (unionDeeds settings partials disjunctive filters).map Deed.event := by
  unfold unionDeeds
  obtain ⟨error, hrefused⟩ | ⟨branches, -, rfl, -, hunited⟩ :=
    union_cases settings partials disjunctive filters
  · rw [hrefused]
    rfl
  · rw [hunited, List.length_map]
    rfl

theorem tally_bindPrefix (path : Path) (equalities prefixCount : Nat) (conditions : List Expr) :
    (path.bindPrefix equalities prefixCount conditions).tally = [] := by
  obtain ⟨error, h⟩ | ⟨_, -, -, -, -, -, h⟩ :=
    path.bindPrefix_cases equalities prefixCount conditions
  · rw [h]
    rfl
  · rw [h]

theorem tally_separateFilters (path : Path) : path.separateFilters.tally = [] := by
  obtain ⟨error, h⟩ | ⟨_, -, -, h⟩ := path.separateFilters_cases
  · rw [h]
    rfl
  · rw [h]
    rfl

theorem tally_setEstimates (path : Path) (estimates : RowEstimates) (settings : Settings) :
    (path.setEstimates estimates settings).tally = [] := by
  obtain ⟨error, -, h⟩ | ⟨error, h⟩ | ⟨-, -, h⟩ := path.setEstimates_cases estimates settings
  · rw [h]
  · rw [h]
    rfl
  · rw [h]

end Path

namespace Candidates

def comesToDiscard (former later : Path) : Bool :=
  former.stage != .discarded && later.stage == .discarded

/-- How many members have come to be discarded; their branches are not looked at. -/
def newlyDiscarded (before after : List Path) : Nat :=
  (before.zip after).countP fun members ↦ comesToDiscard members.1 members.2

/-- A selection that succeeds, with the number of members that it has discarded. -/
def selectionDeeds (candidates : Candidates) (position : Nat) : List Deed :=
  if (candidates.select position).result.isOk then
    [.selected (newlyDiscarded candidates.members (candidates.select position).state.members)]
  else []

theorem comesToDiscard_ended (path : Path) :
    comesToDiscard path path.ended = !path.stage.isFinal := by
  unfold comesToDiscard
  rw [Path.stage_ended]
  cases path.stage <;> rfl

theorem newlyDiscarded_cons (former later : Path) (before after : List Path) :
    newlyDiscarded (former :: before) (later :: after) =
      newlyDiscarded before after + (comesToDiscard former later).toNat := by
  unfold newlyDiscarded
  rw [List.zip_cons_cons, List.countP_cons]
  cases comesToDiscard former later <;> rfl

theorem newlyDiscarded_ended (members : List Path) :
    newlyDiscarded members (members.map Path.ended) =
      members.countP fun path ↦ !path.stage.isFinal := by
  induction members with
  | nil => rfl
  | cons path members ih =>
    rw [List.map_cons, newlyDiscarded_cons, comesToDiscard_ended, ih, List.countP_cons]
    cases path.stage.isFinal <;> rfl

theorem newlyDiscarded_append (former later before after : List Path)
    (h : former.length = later.length) :
    newlyDiscarded (former ++ before) (later ++ after) =
      newlyDiscarded former later + newlyDiscarded before after := by
  unfold newlyDiscarded
  rw [List.zip_append h, List.countP_append]

/-- Besides the winner, the members that have come to be discarded are those that had not ended. -/
theorem newlyDiscarded_set {members : List Path} {position : Nat} {path : Path}
    (h : members[position]? = some path) :
    newlyDiscarded members ((members.set position (winner path)).map Path.ended) =
      (members.set position (winner path)).countP fun other ↦ !other.stage.isFinal := by
  obtain ⟨before, after, hmembers, -, hset⟩ := split_at_position h
  have hwinner : comesToDiscard path (winner path).ended = false := Bool.and_false _
  rw [hset, hmembers, List.map_append, List.map_cons,
    newlyDiscarded_append _ _ _ _ (List.length_map _).symm, newlyDiscarded_cons,
    newlyDiscarded_ended, newlyDiscarded_ended, hwinner, List.countP_append, List.countP_cons]
  rfl

theorem tally_select (candidates : Candidates) (position : Nat) :
    (candidates.select position).tally = (candidates.selectionDeeds position).map Deed.event := by
  unfold selectionDeeds
  rcases candidates.select_refused_or_selectable position with ⟨error, hrefused⟩ | ⟨path, hpath⟩
  · rw [hrefused]
    rfl
  · have hok : (candidates.select position).result.isOk = true := by
      rw [select_of_selectable hpath]
      rfl
    rw [if_pos hok, select_of_selectable hpath, List.map_singleton]
    dsimp only [Deed.event]
    rw [afterSelection, newlyDiscarded_set hpath.member]

end Candidates

/-! ## Totals -/

namespace Deed

/-- The sum of a measure over the extensions of a ledger. -/
def total (measure : Seek.Extension → Nat) (ledger : List Deed) : Nat :=
  ((ledger.filterMap extension?).map measure).sum

/-- The totals of a ledger, each up to the limit of a counter. -/
def counters (ledger : List Deed) : Counters where
  extensions := min (ledger.filterMap extension?).length Counters.limit
  columnsBound := min (total (fun extension ↦ extension.access.length) ledger) Counters.limit
  filtersConsumed := min (total Seek.Extension.consumed ledger) Counters.limit
  partialMatches := min (total Seek.Extension.partialMatches ledger) Counters.limit
  rejections := min (total Seek.Extension.rejected ledger) Counters.limit
  selections := min (ledger.filterMap discarded?).length Counters.limit
  discards := min (ledger.filterMap discarded?).sum Counters.limit
  unions := min (ledger.countP isUnion) Counters.limit

theorem min_limit_of_lt {total : Nat} (h : min total Counters.limit < Counters.limit) :
    min total Counters.limit = total := by
  omega

theorem raise_min (count amount : Nat) :
    Counters.raise (min count Counters.limit) amount = min (count + amount) Counters.limit := by
  unfold Counters.raise
  omega

/-- A counter that has been cut off at the limit goes on as its total does. -/
theorem counters_concat (ledger : List Deed) (deed : Deed) :
    counters (ledger ++ [deed]) = (counters ledger).add deed.event := by
  cases deed with
  | extended extension =>
    simp [counters, total, event, Seek.Extension.tallyEvent, Counters.add, raise_min,
      List.filterMap_cons, extension?, discarded?, isUnion]
  | united branches =>
    simp [counters, total, event, Counters.add, raise_min, List.filterMap_cons, extension?,
      discarded?, isUnion]
  | selected discarded =>
    simp [counters, total, event, Counters.add, raise_min, List.filterMap_cons, extension?,
      discarded?, isUnion]

theorem counters_append (ledger deeds : List Deed) :
    counters (ledger ++ deeds) = (deeds.map event).foldl Counters.add (counters ledger) := by
  induction deeds generalizing ledger with
  | nil => rw [List.append_nil, List.map_nil, List.foldl_nil]
  | cons deed deeds ih =>
    rw [List.map_cons, List.foldl_cons, ← counters_concat, ← ih, List.append_assoc,
      List.singleton_append]

/-- Every extension binds as many keys as it consumes filters and finds partial matches. -/
def Balanced (ledger : List Deed) : Prop :=
  ∀ extension, .extended extension ∈ ledger →
    extension.access.length = extension.consumed + extension.partialMatches

theorem balanced_nil : Balanced [] := fun _ hmem ↦ nomatch hmem

theorem Balanced.append {ledger deeds : List Deed} (h : Balanced ledger) (hdeeds : Balanced deeds) :
    Balanced (ledger ++ deeds) := by
  intro extension hmem
  exact (List.mem_append.mp hmem).elim (h extension) (hdeeds extension)

theorem balanced_extended (compatible : Compatibility) (keys : List KeyColumn)
    (filters : List Expr) (prefixCount : Nat) :
    Balanced [.extended (Seek.extend compatible keys filters prefixCount)] := by
  intro extension hmem
  obtain rfl := extended.inj (List.mem_singleton.mp hmem)
  exact Seek.length_extend_access compatible keys filters prefixCount

theorem total_access {ledger : List Deed} (h : Balanced ledger) :
    total (fun extension ↦ extension.access.length) ledger =
      total Seek.Extension.consumed ledger + total Seek.Extension.partialMatches ledger := by
  unfold total
  rw [← List.sum_map_add]
  congr 1
  apply List.map_congr_left
  intro extension hmem
  obtain ⟨deed, hdeed, hextension⟩ := List.mem_filterMap.mp hmem
  cases deed with
  | extended =>
    obtain rfl := Option.some.inj hextension
    exact h _ hdeed
  | united => cases hextension
  | selected => cases hextension

end Deed

end IndexAccess
