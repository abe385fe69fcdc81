import IndexAccess.Proofs.Session.Deeds
import IndexAccess.Session

/-!
# What the counters of a session tell

A ledger has the deeds of a session since its counters were reset, in their order.  While no
recorder is in force, each call records the events of its deeds, so that the counters show the
totals of the ledger, up to their limit.
-/

namespace IndexAccess

/-! ## Calls -/

theorem Meter.recordAll_of_free {meter : Meter} (h : meter.inForce = none)
    (events : List TallyEvent) :
    meter.recordAll events =
      { meter with counters := events.foldl Counters.add meter.counters } := by
  unfold recordAll
  induction events generalizing meter with
  | nil => rfl
  | cons event events ih =>
    have hrecord : meter.record event =
        { meter with counters := meter.counters.add event } := by
      unfold record
      rw [h]
    rw [List.foldl_cons, List.foldl_cons, hrecord]
    exact ih h

namespace Session

/-- What can be asked of a session: an extension for keys and filters of the caller's own, or a
command, carried out in any context. -/
inductive Call where
  | extend (compatible : Compatibility) (keys : List KeyColumn) (filters : List Expr)
      (prefixCount : Nat)
  | command (context : Context) (command : Command)

def Call.resets : Call → Bool
  | .command _ .resetCounters => true
  | _ => false

def after (session : Session) : Call → Session
  | .extend compatible keys filters prefixCount =>
    match Seek.requestExtension compatible keys filters prefixCount with
    | .error _ => session
    | .ok outcome => { session with meter := session.meter.recordAll outcome.tally }
  | .command context command => ({ session with context }.run command).1

def afterAll (session : Session) (calls : List Call) : Session :=
  calls.foldl after session

/-- What a call does that the counters are to tell. -/
def deeds (session : Session) : Call → List Deed
  | .extend compatible keys filters prefixCount =>
    if prefixCount ≤ keys.length then
      [.extended (Seek.extend compatible keys filters prefixCount)]
    else []
  | .command context (.extendSeek name) =>
    (session.path? name).elim [] fun path ↦ path.extensionDeeds context.compatible
  | .command context (.union _ names disjunctive filters) =>
    match session.pathsOf names with
    | .error _ => []
    | .ok partials => Path.unionDeeds context.settings partials disjunctive filters
  | .command _ (.select name position) =>
    (session.set? name).elim [] fun candidates ↦ candidates.selectionDeeds position
  | .command _ _ => []

/-- The ledger kept on along some calls, begun anew whenever the counters are reset. -/
def ledgerAll (session : Session) (ledger : List Deed) : List Call → List Deed
  | [] => ledger
  | call :: calls =>
    (session.after call).ledgerAll
      (if call.resets then [] else ledger ++ session.deeds call) calls

/-! ## Single calls -/

theorem meter_takeIn {σ α : Type} {store : Session → σ → Session}
    (h : ∀ session state, (store session state).meter = session.meter) (session : Session)
    (answer : α → Answer) (outcome : Outcome σ α) :
    (session.takeIn store answer outcome).1.meter = session.meter.recordAll outcome.tally := by
  unfold takeIn
  dsimp only
  rw [h]

theorem meter_onPath {α : Type} (session : Session) (name : String) (answer : α → Answer)
    (operation : Path → Outcome Path α) :
    (session.onPath name answer operation).1.meter = session.meter.recordAll
      ((session.path? name).elim [] fun path ↦ (operation path).tally) := by
  unfold onPath
  cases session.path? name with
  | none => rfl
  | some path => exact meter_takeIn (fun _ _ ↦ rfl) session answer (operation path)

theorem meter_onPath_of_silent {α : Type} (session : Session) (name : String) (answer : α → Answer)
    {operation : Path → Outcome Path α} (h : ∀ path, (operation path).tally = []) :
    (session.onPath name answer operation).1.meter = session.meter := by
  rw [meter_onPath]
  cases session.path? name with
  | none => rfl
  | some path =>
    rw [Option.elim_some, h]
    rfl

theorem pathsOf_withContext (session : Session) (context : Context) (names : List String) :
    pathsOf { session with context } names = session.pathsOf names := by
  induction names with
  | nil => rfl
  | cons name names ih =>
    unfold pathsOf
    rw [ih]
    rfl

theorem meter_union (session : Session) (name : String) (names : List String) (disjunctive : Bool)
    (filters : List Expr) (context : Context) :
    (session.after (.command context (.union name names disjunctive filters))).meter =
      session.meter.recordAll
        ((session.deeds (.command context (.union name names disjunctive filters))).map
          Deed.event) := by
  simp only [after, run, deeds, pathsOf_withContext]
  cases session.pathsOf names with
  | error error => rfl
  | ok partials =>
    dsimp only
    rw [← Path.tally_union]
    split
    · rfl
    · rfl

theorem meter_after (session : Session) {call : Call} (h : call.resets = false) :
    (session.after call).meter = session.meter.recordAll ((session.deeds call).map Deed.event) := by
  cases call with
  | extend compatible keys filters prefixCount =>
    simp only [after, deeds, Seek.requestExtension]
    by_cases hrange : prefixCount ≤ keys.length
    · rw [if_pos hrange, if_pos hrange]
      rfl
    · rw [if_neg hrange, if_neg hrange]
      rfl
  | command context command =>
    cases command with
    | union name names disjunctive filters =>
      exact session.meter_union name names disjunctive filters context
    | extendSeek name =>
      simp only [after, run, deeds, meter_onPath, path?]
      cases session.paths.lookup name with
      | none => rfl
      | some path => rw [Option.elim_some, Option.elim_some, path.tally_extendSeek]
    | select name position =>
      simp only [after, run, deeds, set?]
      cases session.sets.lookup name with
      | none => rfl
      | some candidates =>
        rw [Option.elim_some, ← candidates.tally_select]
        exact meter_takeIn (fun _ _ ↦ rfl) _ _ _
    | bindPrefix name equalities prefixCount conditions =>
      exact meter_onPath_of_silent _ _ _ fun path ↦ path.tally_bindPrefix _ _ _
    | separateFilters => exact meter_onPath_of_silent _ _ _ fun path ↦ path.tally_separateFilters
    | setEstimates => exact meter_onPath_of_silent _ _ _ fun path ↦ path.tally_setEstimates _ _
    | hint => exact meter_onPath_of_silent _ _ _ fun path ↦ rfl
    | inspect => exact meter_onPath_of_silent _ _ _ fun path ↦ rfl
    | resetCounters => cases h
    | table | newSet | readCounters => rfl
    | index =>
      simp only [after, run]
      split <;> rfl
    | compareBound | compareEqual | push =>
      simp only [after, run]
      split <;> rfl
    | fetch | takeSelected =>
      simp only [after, run]
      split
      · rfl
      · split <;> rfl

theorem meter_after_of_resets (session : Session) {call : Call} (h : call.resets = true) :
    (session.after call).meter = session.meter.reset := by
  unfold Call.resets at h
  split at h
  · rfl
  · cases h

theorem balanced_deeds (session : Session) (call : Call) : Deed.Balanced (session.deeds call) := by
  unfold deeds
  split
  · split
    · exact Deed.balanced_extended _ _ _ _
    · exact Deed.balanced_nil
  · next name =>
    cases session.path? name with
    | none => exact Deed.balanced_nil
    | some path =>
      rw [Option.elim_some]
      unfold Path.extensionDeeds
      split
      · exact Deed.balanced_extended _ _ _ _
      · exact Deed.balanced_nil
  · split
    · exact Deed.balanced_nil
    · unfold Path.unionDeeds
      split
      · exact fun extension hmem ↦ nomatch List.mem_singleton.mp hmem
      · exact Deed.balanced_nil
  · next name position =>
    cases session.set? name with
    | none => exact Deed.balanced_nil
    | some candidates =>
      rw [Option.elim_some]
      unfold Candidates.selectionDeeds
      split
      · exact fun extension hmem ↦ nomatch List.mem_singleton.mp hmem
      · exact Deed.balanced_nil
  · exact Deed.balanced_nil

/-! ## Runs -/

/-- The counters show the totals of a ledger, and no recorder keeps events from them. -/
structure Tallied (session : Session) (ledger : List Deed) : Prop where
  free : session.meter.inForce = none
  counters : session.meter.counters = Deed.counters ledger
  balanced : Deed.Balanced ledger

theorem Tallied.after {session : Session} {ledger : List Deed} (h : session.Tallied ledger)
    (call : Call) :
    (session.after call).Tallied (if call.resets then [] else ledger ++ session.deeds call) := by
  cases hresets : call.resets with
  | true =>
    have hmeter := session.meter_after_of_resets hresets
    rw [if_pos rfl]
    refine ⟨?_, ?_, Deed.balanced_nil⟩
    · rw [hmeter]
      exact h.free
    · rw [hmeter]
      rfl
  | false =>
    have hmeter := session.meter_after hresets
    rw [Meter.recordAll_of_free h.free] at hmeter
    rw [if_neg Bool.false_ne_true]
    refine ⟨?_, ?_, h.balanced.append (session.balanced_deeds call)⟩
    · rw [hmeter]
      exact h.free
    · rw [hmeter, Deed.counters_append, h.counters]

theorem Tallied.afterAll {session : Session} {ledger : List Deed} (h : session.Tallied ledger)
    (calls : List Call) : (session.afterAll calls).Tallied (session.ledgerAll ledger calls) := by
  unfold Session.afterAll
  induction calls generalizing session ledger with
  | nil => exact h
  | cons call calls ih => exact ih (h.after call)

/-- From reset counters, with no recorder in force and as long as no counter has reached its limit,
the counters of a session tell the truth about any run of calls, refused ones among them. -/
theorem counters_afterAll (session : Session) (calls : List Call)
    (hzero : session.meter.counters = .zero) (hfree : session.meter.inForce = none)
    (hbelow : ∀ counter ∈ (session.afterAll calls).meter.counters.toList,
      counter.2 < Counters.limit) :
    let counters := (session.afterAll calls).meter.counters
    let ledger := session.ledgerAll [] calls
    let extensions := ledger.filterMap Deed.extension?
    let discards := ledger.filterMap Deed.discarded?
    counters.extensions = extensions.length ∧
      counters.columnsBound = (extensions.map fun extension ↦ extension.access.length).sum ∧
      counters.filtersConsumed = (extensions.map Seek.Extension.consumed).sum ∧
      counters.partialMatches = (extensions.map Seek.Extension.partialMatches).sum ∧
      counters.rejections = (extensions.map Seek.Extension.rejected).sum ∧
      counters.columnsBound = counters.filtersConsumed + counters.partialMatches ∧
      counters.unions = ledger.countP Deed.isUnion ∧
      counters.selections = discards.length ∧
      counters.discards = discards.sum := by
  intro counters ledger extensions discards
  have hstart : session.Tallied [] := ⟨hfree, hzero, Deed.balanced_nil⟩
  have h : (session.afterAll calls).Tallied ledger := hstart.afterAll calls
  have hcounters : counters = Deed.counters ledger := h.counters
  have hall : ∀ counter ∈ counters.toList, counter.2 < Counters.limit := hbelow
  rw [hcounters] at hall ⊢
  simp only [Counters.toList, Deed.counters, List.forall_mem_cons] at hall
  obtain ⟨hextensions, hcolumns, hconsumed, hpartial, hrejected, hselected, hdiscarded, hunited,
    -⟩ := hall
  have hbalance : (Deed.counters ledger).columnsBound =
      (Deed.counters ledger).filtersConsumed + (Deed.counters ledger).partialMatches := by
    calc (Deed.counters ledger).columnsBound
      _ = Deed.total (fun extension ↦ extension.access.length) ledger :=
        Deed.min_limit_of_lt hcolumns
      _ = Deed.total Seek.Extension.consumed ledger +
            Deed.total Seek.Extension.partialMatches ledger := Deed.total_access h.balanced
      _ = _ := congrArg₂ (· + ·) (Deed.min_limit_of_lt hconsumed).symm
        (Deed.min_limit_of_lt hpartial).symm
  exact ⟨Deed.min_limit_of_lt hextensions, Deed.min_limit_of_lt hcolumns,
    Deed.min_limit_of_lt hconsumed, Deed.min_limit_of_lt hpartial, Deed.min_limit_of_lt hrejected,
    hbalance, Deed.min_limit_of_lt hunited, Deed.min_limit_of_lt hselected,
    Deed.min_limit_of_lt hdiscarded⟩

/-- A direct request that binds a whole key and a part of a column, and a session that unites a
table read, selects the read and discards the union; the second selection is refused. -/
def readOverUnion : List Call :=
  let keys : List KeyColumn :=
    [⟨⟨1, "a", .plain .int⟩, none⟩, ⟨⟨2, "b", .plain .blob⟩, some 10⟩]
  let filters : List Expr :=
    [.call .eq [.column ⟨2, "b", .plain .blob⟩, .correlated ⟨9, "x", .plain .blob⟩] .binary,
      .call .eq [.column ⟨1, "a", .plain .int⟩, .constant .null (.plain .int)] .binary]
  let run := Call.command (.ofSettings .standard)
  [.extend .exact keys filters 0, run (.table "t" none []),
    run (.setEstimates "t" ⟨.zero, .zero, none⟩), run (.union "u" ["t"] true []),
    run (.newSet "s"), run (.push "s" "t"), run (.push "s" "u"), run (.select "s" 0),
    run (.select "s" 1)]

theorem counters_afterAll_readOverUnion :
    let session := start (.ofSettings .standard)
    let counters := (session.afterAll readOverUnion).meter.counters
    let ledger := session.ledgerAll [] readOverUnion
    let extensions := ledger.filterMap Deed.extension?
    let discards := ledger.filterMap Deed.discarded?
    session.meter.counters = .zero ∧ session.meter.inForce = none ∧
      (∀ counter ∈ counters.toList, counter.2 < Counters.limit) ∧
      counters.extensions = extensions.length ∧
      counters.columnsBound = (extensions.map fun extension ↦ extension.access.length).sum ∧
      counters.filtersConsumed = (extensions.map Seek.Extension.consumed).sum ∧
      counters.partialMatches = (extensions.map Seek.Extension.partialMatches).sum ∧
      counters.rejections = (extensions.map Seek.Extension.rejected).sum ∧
      counters.columnsBound = counters.filtersConsumed + counters.partialMatches ∧
      counters.unions = ledger.countP Deed.isUnion ∧
      counters.selections = discards.length ∧
      counters.discards = discards.sum := by
  intro session counters ledger extensions discards
  have hbelow : ∀ counter ∈ counters.toList, counter.2 < Counters.limit := by decide
  exact ⟨rfl, rfl, hbelow, counters_afterAll session readOverUnion rfl rfl hbelow⟩

example :
    ((start (.ofSettings .standard)).afterAll readOverUnion).meter.counters =
      ⟨1, 2, 1, 1, 0, 1, 1, 1⟩ := by
  decide

end Session

end IndexAccess
