import IndexAccess.Proofs.Lifecycle.Representation

/-!
# Filters checked on the index entry

An entry of an index holds the whole values of some columns of its row: those of its whole keys and
of the row handle.  The value of a filter depends on the columns that it mentions and on nothing
else of the row, however constants, operators and the enclosing query are valued.  Index filters
mention columns of the entry alone, so rows with the same entry give them the same values.

Conversely, the filters have been separated once and for all: from then on each filter left on the
table row mentions a column that the entry does not hold.  A seek that is extended later only takes
filters away, and nothing ever puts one back.  This stays so for copies of the path that are united
with others.
-/

universe u

namespace IndexAccess

/-! ## Values of expressions -/

/-- How expressions are valued.  The enclosing query is fixed, so a reference to it has a value of
its own; an operator sees nothing of its arguments but their values. -/
structure Evaluator (Value : Type u) where
  constant : Literal → SqlType → Value
  correlated : Column → Value
  call : Operator → Collation → List Value → Value

namespace Evaluator

variable {Value : Type u} (evaluator : Evaluator Value)

mutual

/-- The value on a row, from which columns are read by their identity. -/
def value (row : ColumnId → Value) : Expr → Value
  | .column c => row c.id
  | .constant literal type => evaluator.constant literal type
  | .correlated c => evaluator.correlated c
  | .call operator arguments collation =>
    evaluator.call operator collation (valueAll row arguments)

def valueAll (row : ColumnId → Value) : List Expr → List Value
  | [] => []
  | e :: es => value row e :: valueAll row es

end

variable {row row' : ColumnId → Value}

mutual

theorem value_congr (e : Expr) (h : ∀ column ∈ e.columns, row column.id = row' column.id) :
    evaluator.value row e = evaluator.value row' e := by
  match e with
  | .column c => exact h c List.mem_cons_self
  | .constant .. => rfl
  | .correlated _ => rfl
  | .call operator arguments collation =>
    have harguments : evaluator.valueAll row arguments = evaluator.valueAll row' arguments :=
      valueAll_congr arguments h
    rw [value, value, harguments]

theorem valueAll_congr (es : List Expr)
    (h : ∀ column ∈ Expr.columnsOfAll es, row column.id = row' column.id) :
    evaluator.valueAll row es = evaluator.valueAll row' es := by
  match es with
  | [] => rfl
  | e :: es =>
    have hhead : evaluator.value row e = evaluator.value row' e :=
      value_congr e fun column hmem ↦ h column (List.mem_append_left _ hmem)
    have htail : evaluator.valueAll row es = evaluator.valueAll row' es :=
      valueAll_congr es fun column hmem ↦ h column (List.mem_append_right _ hmem)
    rw [valueAll, valueAll, hhead, htail]

end

end Evaluator

/-! ## Entries -/

namespace Index

variable {Value : Type u} {index : Index} {filter : Expr}

/-- The whole value of the column stands in every entry. -/
def Holds (index : Index) (column : ColumnId) : Prop :=
  (∃ key ∈ index.keys, key.kept = none ∧ key.column.id = column) ∨
    ∃ handle, index.handle = some handle ∧ handle.id = column

/-- Two rows that an entry does not tell apart. -/
def SameEntry (index : Index) (row row' : ColumnId → Value) : Prop :=
  ∀ column, index.Holds column → row column = row' column

theorem covers_iff_holds {column : ColumnId} :
    index.covers column = true ↔ index.Holds column := by
  simp only [covers, Holds, KeyColumn.isWhole, KeyColumn.id, Bool.or_eq_true, List.any_eq_true,
    Bool.and_eq_true, Option.isNone_iff_eq_none, beq_iff_eq, Option.any_eq_true]

theorem answers_iff : index.answers filter = true ↔
    ∀ column ∈ filter.columns, index.Holds column.id := by
  simp only [answers, List.all_eq_true, covers_iff_holds]

theorem answers_eq_false_iff : index.answers filter = false ↔
    ∃ column ∈ filter.columns, ¬index.Holds column.id := by
  rw [← Bool.not_eq_true, answers_iff]
  push Not
  rfl

theorem value_eq_of_answers {row row' : ColumnId → Value} (h : index.answers filter = true)
    (hrows : index.SameEntry row row') (evaluator : Evaluator Value) :
    evaluator.value row filter = evaluator.value row' filter := by
  apply evaluator.value_congr
  intro column hmem
  exact hrows column.id (answers_iff.mp h column hmem)

end Index

namespace Path

variable {path later : Path} {filters : List Expr} {index : Index}

/-! ## Steps -/

theorem Step.index?_eq (hstep : Step path later) : later.index? = path.index? := by
  cases hstep with
  | ended => exact index?_ended path
  | _ => rfl

/-- Every filter checked on the index entry can be checked there. -/
def Answered (path : Path) : Prop :=
  ∀ index, path.index? = some index → ∀ filter ∈ path.indexFilters, index.answers filter = true

/-- No filter left on the table row could be checked on an entry of the path's index. -/
def Separated (index : Index) (path : Path) : Prop :=
  path.index? = some index ∧ ∀ filter ∈ path.tableFilters, index.answers filter = false

theorem Answered.step (hstep : Step path later) (h : path.Answered) : later.Answered := by
  intro index hindex
  rw [hstep.index?_eq] at hindex
  have hformer := h index hindex
  cases hstep with
  | @separated other hother =>
    obtain rfl : other = index := Option.some.inj (hother.symm.trans hindex)
    intro filter hmem
    rcases List.mem_append.mp hmem with hbefore | hmoved
    · exact hformer filter hbefore
    · exact (List.mem_filter.mp hmoved).2
  | ended =>
    rw [indexFilters_ended]
    exact hformer
  | _ => exact hformer

theorem Separated.step (hstep : Step path later) (h : path.Separated index) :
    later.Separated index := by
  refine ⟨hstep.index?_eq.trans h.1, ?_⟩
  cases hstep with
  | @extended other compatible =>
    intro filter hmem
    have hsublist := Seek.extend_residual_sublist compatible other.keys path.tableFilters
      path.prefixCount
    exact h.2 filter (hsublist.subset hmem)
  | separated =>
    intro filter hmem
    exact h.2 filter (List.mem_of_mem_filter hmem)
  | ended =>
    rw [tableFilters_ended]
    exact h.2
  | _ => exact h.2

theorem separated_separateFilters (hindex : path.index? = some index)
    (h : path.separateFilters.result = .ok ()) : path.separateFilters.state.Separated index := by
  obtain ⟨error, hrefused⟩ | ⟨other, hother, -, hseparated⟩ := path.separateFilters_cases
  · rw [hrefused] at h
    cases h
  · obtain rfl : other = index := Option.some.inj (hother.symm.trans hindex)
    rw [hseparated]
    refine ⟨hother, ?_⟩
    intro filter hmem
    exact (Bool.not_eq_true' _).mp (List.mem_filter.mp hmem).2

/-! ## Runs -/

theorem Reachable.answered (h : Reachable filters path) : path.Answered := by
  induction h with
  | table => exact fun _ _ _ hmem ↦ nomatch hmem
  | index => exact fun _ _ _ hmem ↦ nomatch hmem
  | union built hpartials h =>
    obtain ⟨branches, -, -, rfl⟩ := eq_create_of_union h
    exact fun _ _ _ hmem ↦ nomatch hmem
  | after _ action ih => exact ih.step (step_after _ action)

/-- What becomes of a path: actions happen to it, and a copy of it may be united with other paths
and share the fate of their union. -/
inductive Later (path : Path) : Path → Prop where
  | now : Later path path
  | after {later : Path} (h : Later path later) (action : Action) : Later path (later.after action)
  | joined {later united : Path} {settings : Settings} {partials : List Path} {disjunctive : Bool}
      {filters : List Expr} {seat : Nat} {branch : Branch} (h : Later path later)
      (hseat : partials[seat]? = some later)
      (hunion : (union settings partials disjunctive filters).result = .ok united)
      (actions : List Action) (hbranch : (united.afterAll actions).branches[seat]? = some branch) :
      Later path branch.toPath

/-- A copy that was united with other paths is as it was, or it has ended. -/
theorem joined_cases {united : Path} {settings : Settings} {partials : List Path}
    {disjunctive : Bool} {seat : Nat} {branch : Branch} (hseat : partials[seat]? = some path)
    (hunion : (union settings partials disjunctive filters).result = .ok united)
    (actions : List Action) (hbranch : (united.afterAll actions).branches[seat]? = some branch) :
    branch.toPath = path ∨ branch.toPath = path.ended := by
  have hmade : (united.afterAll actions).MadeOf settings partials filters :=
    ⟨disjunctive, united, actions, hunion, rfl⟩
  have hseen : ((united.afterAll actions).branches.map Branch.toPath)[seat]? =
      some branch.toPath := by
    rw [List.getElem?_map, hbranch]
    rfl
  rw [hmade.hasParts.branches] at hseen
  split at hseen
  · rw [List.getElem?_map, hseat] at hseen
    exact .inr (Option.some.inj hseen).symm
  · exact .inl (Option.some.inj (hseen.symm.trans hseat))

/-- What every step keeps is kept whatever becomes of a path. -/
theorem Later.keeps {Kept : Path → Prop}
    (hkeep : ∀ {path later : Path}, Step path later → Kept path → Kept later)
    (h : Later path later) (hpath : Kept path) : Kept later := by
  induction h with
  | now => exact hpath
  | after _ action ih => exact hkeep (step_after _ action) ih
  | joined _ hseat hunion actions hbranch ih =>
    rcases joined_cases hseat hunion actions hbranch with hsame | hended
    · rw [hsame]
      exact ih
    · rw [hended]
      exact hkeep .ended ih

/-- An index filter has the same value on all rows with the same entry.  Once the filters have been
separated, each filter left on the table row mentions a column that the entry does not hold,
whatever happens to the path later. -/
theorem indexFilters_valued_by_entry {Value : Type u} (h : Reachable filters path)
    (hindex : path.index? = some index) :
    (∀ filter ∈ path.indexFilters, ∀ (evaluator : Evaluator Value) (row row' : ColumnId → Value),
      index.SameEntry row row' → evaluator.value row filter = evaluator.value row' filter) ∧
    (path.separateFilters.result = .ok () → ∀ later, Later path.separateFilters.state later →
      later.index? = some index ∧
        ∀ filter ∈ later.tableFilters, ∃ column ∈ filter.columns, ¬index.Holds column.id) := by
  constructor
  · intro filter hmem evaluator row row' hrows
    exact Index.value_eq_of_answers (h.answered index hindex filter hmem) hrows evaluator
  · intro hseparated later hlater
    have hsplit := hlater.keeps Separated.step (separated_separateFilters hindex hseparated)
    exact ⟨hsplit.1, fun filter hmem ↦ Index.answers_eq_false_iff.mp (hsplit.2 filter hmem)⟩

/-- A whole column, twenty characters of another one, and a handle. -/
def handledIndex : Index where
  id := 1
  name := "cd"
  keys := [⟨⟨4, "c", .plain .int⟩, none⟩, ⟨⟨5, "d", .plain .blob⟩, some 20⟩]
  unique := false
  handle := some ⟨6, "h", .plain .int⟩
  wellFormed := ⟨by decide, by decide, by decide⟩

/-- Filters on the whole column, on the column kept in part, and on the handle and the former. -/
def entryFilters : List Expr :=
  [.call .ne [.column ⟨4, "c", .plain .int⟩, .constant .null (.plain .int)] .binary,
    .call .eq [.column ⟨5, "d", .plain .blob⟩, .correlated ⟨9, "x", .plain .blob⟩] .binary,
    .call .lt [.column ⟨6, "h", .plain .int⟩, .column ⟨4, "c", .plain .int⟩] .binary]

def handledRead : Path :=
  ((Path.index handledIndex entryFilters).after (.extendSeek .exact)).after .separateFilters

theorem indexFilters_valued_by_entry_handledRead :
    Reachable entryFilters handledRead ∧ handledRead.index? = some handledIndex ∧
      handledRead.separateFilters.result = .ok () ∧
        (∀ filter ∈ handledRead.indexFilters, ∀ (evaluator : Evaluator Nat)
          (row row' : ColumnId → Nat), handledIndex.SameEntry row row' →
            evaluator.value row filter = evaluator.value row' filter) ∧
        (handledRead.separateFilters.result = .ok () →
          ∀ later, Later handledRead.separateFilters.state later →
            later.index? = some handledIndex ∧ ∀ filter ∈ later.tableFilters,
              ∃ column ∈ filter.columns, ¬handledIndex.Holds column.id) := by
  have h : Reachable entryFilters handledRead :=
    ((Reachable.index handledIndex entryFilters).after _).after _
  exact ⟨h, rfl, rfl, indexFilters_valued_by_entry h rfl⟩

example : handledRead.indexFilters.length = 2 ∧ handledRead.tableFilters.length = 1 := by decide

end Path

end IndexAccess
