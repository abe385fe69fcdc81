import IndexAccess.Proofs.Path.Outcomes
import IndexAccess.Proofs.Seek.Placement

/-!
# Filters of one template

The template of a filter is what is left of it without the names of its columns and without the
values that are fixed during one scan: what these are, and whether they are constants or come from
an enclosing query, is left open.  A plan made for one filter is used again for others of its
template, so nothing that is decided about a filter may depend on more than the template.

Each function that decides something is shown to commute with taking templates.  A walk over
templates is then the template of a walk, and two walks over filters with the same templates have
the same course.
-/

namespace IndexAccess

/-! ## Templates -/

/-- The column without its name. -/
def Column.unnamed (column : Column) : Column := { column with name := "" }

/-- The key column without the name of its column. -/
def KeyColumn.unnamed (key : KeyColumn) : KeyColumn := { key with column := key.column.unnamed }

namespace Expr

/-- The place of a value that is fixed during one scan. -/
def hole : Expr := .constant .null (.plain .int)

mutual

/-- The expression without the names of its columns, and with a hole for every fixed value. -/
def template : Expr → Expr
  | .column c => .column c.unnamed
  | .constant .. => hole
  | .correlated _ => hole
  | .call operator arguments collation => .call operator (templateAll arguments) collation

def templateAll : List Expr → List Expr
  | [] => []
  | e :: es => e.template :: templateAll es

end

mutual

theorem columns_template (e : Expr) : e.template.columns = e.columns.map Column.unnamed := by
  match e with
  | .column _ => rfl
  | .constant .. => rfl
  | .correlated _ => rfl
  | .call _ arguments _ => exact columnsOfAll_templateAll arguments

theorem columnsOfAll_templateAll (es : List Expr) :
    columnsOfAll (templateAll es) = (columnsOfAll es).map Column.unnamed := by
  match es with
  | [] => rfl
  | e :: es =>
    rw [templateAll, columnsOfAll, columnsOfAll, columns_template e, columnsOfAll_templateAll es,
      List.map_append]

end

end Expr

namespace Seek

variable (compatible : Compatibility)

/-! ## Verdicts -/

theorem isFixed_template (e : Expr) : isFixed e.template = isFixed e := by
  cases e <;> rfl

theorem judgeSides_template (target : Column) (collation : Collation) (side value : Expr) :
    judgeSides compatible target.unnamed collation side.template value.template =
      judgeSides compatible target collation side value := by
  cases side with
  | column c =>
    simp only [Expr.template, judgeSides, isFixed_template]
    rfl
  | constant => rfl
  | correlated => rfl
  | call => rfl

/-- Both operand orders are judged alike, and neither the operator nor the number of the arguments
is touched by taking the template. -/
theorem judge_template (target : Column) (filter : Expr) :
    judge compatible target.unnamed filter.template = judge compatible target filter := by
  cases filter with
  | column => rfl
  | constant => rfl
  | correlated => rfl
  | call operator arguments collation =>
    cases operator with
    | eq =>
      match arguments with
      | [] => rfl
      | [_] => rfl
      | [left, right] =>
        simp only [Expr.template, Expr.templateAll, judge, judgeSides_template]
      | _ :: _ :: _ :: _ => rfl
    | _ => rfl

/-! ## Walks -/

def OpenFilter.template (filter : OpenFilter) : OpenFilter := (filter.1.template, filter.2)

def Binding.template (binding : Binding) : Binding where
  slot := binding.slot
  key := binding.key.unnamed
  filter := binding.filter.template

def Walk.template (w : Walk) : Walk where
  bindings := w.bindings.map Binding.template
  residual := w.residual.map OpenFilter.template
  gap := w.gap.map fun (slot, key) ↦ (slot, key.unnamed)
  rejected := w.rejected

/-- The counts are no part of what a template leaves out. -/
def Extension.template (extension : Extension) : Extension :=
  { extension with
    access := extension.access.map Expr.template
    residual := extension.residual.map Expr.template }

theorem walk_template (slot : Nat) (keys : List KeyColumn) (filters : List OpenFilter) :
    walk compatible slot (keys.map KeyColumn.unnamed) (filters.map OpenFilter.template) =
      (walk compatible slot keys filters).template :=
  walk_map KeyColumn.unnamed OpenFilter.template
    (fun key filter ↦ judge_template compatible key.column filter.1) (fun _ ↦ rfl) slot keys filters

theorem walkFrom_template (keys : List KeyColumn) (filters : List Expr) (prefixCount : Nat) :
    walkFrom compatible (keys.map KeyColumn.unnamed) (filters.map Expr.template) prefixCount =
      (walkFrom compatible keys filters prefixCount).template := by
  have hfilters : (filters.map Expr.template).zipIdx = filters.zipIdx.map OpenFilter.template := by
    rw [List.zipIdx_map]
    rfl
  unfold walkFrom
  rw [hfilters, ← List.map_drop]
  exact walk_template ..

theorem toExtension_template (filterCount : Nat) (w : Walk) :
    w.template.toExtension filterCount = (w.toExtension filterCount).template := by
  simp only [Walk.toExtension, Walk.template, Extension.template, List.map_map, List.length_map,
    List.countP_map]
  rfl

/-! ## Two walks -/

/-- Open filters at one position of their lists. -/
structure Corresponding (filters filters' : List Expr) (filter filter' : OpenFilter) : Prop where
  position : filter.2 = filter'.2
  left : filters[filter.2]? = some filter.1
  right : filters'[filter'.2]? = some filter'.1

/-- The walks bind corresponding filters at the same slots and keep corresponding filters, and
their extensions have the same counts. -/
structure SameDecisions (filters filters' : List Expr) (w w' : Walk) : Prop where
  bindings : List.Forall₂ (fun binding binding' ↦ binding.slot = binding'.slot ∧
    Corresponding filters filters' binding.filter binding'.filter) w.bindings w'.bindings
  residual : List.Forall₂ (Corresponding filters filters') w.residual w'.residual
  consumed : (w.toExtension filters.length).consumed = (w'.toExtension filters'.length).consumed
  partialMatches : (w.toExtension filters.length).partialMatches =
    (w'.toExtension filters'.length).partialMatches
  rejected : (w.toExtension filters.length).rejected = (w'.toExtension filters'.length).rejected

theorem forall₂_of_map_eq {α β : Type} {f : α → β} {R : α → α → Prop} {as bs : List α}
    (h : as.map f = bs.map f) (hR : ∀ a ∈ as, ∀ b ∈ bs, f a = f b → R a b) :
    List.Forall₂ R as bs := by
  induction as generalizing bs with
  | nil =>
    cases List.map_eq_nil_iff.mp h.symm
    exact .nil
  | cons a as ih =>
    obtain ⟨b, bs, rfl, hab, hrest⟩ := List.map_eq_cons_iff.mp h.symm
    refine .cons (hR a List.mem_cons_self b List.mem_cons_self hab.symm) (ih hrest.symm ?_)
    intro a' ha' b' hb'
    exact hR a' (List.mem_cons_of_mem _ ha') b' (List.mem_cons_of_mem _ hb')

section

variable {compatible} {keys keys' : List KeyColumn} {filters filters' : List Expr}
  {prefixCount : Nat}

theorem getElem?_position_of_mem_residual {filter : OpenFilter}
    (h : filter ∈ (walkFrom compatible keys filters prefixCount).residual) :
    filters[filter.2]? = some filter.1 :=
  List.mem_zipIdx_iff_getElem?.mp ((walk_residual_sublist ..).subset h)

theorem sameDecisions_walkFrom (hkeys : keys.map KeyColumn.unnamed = keys'.map KeyColumn.unnamed)
    (hfilters : filters.map Expr.template = filters'.map Expr.template) :
    SameDecisions filters filters' (walkFrom compatible keys filters prefixCount)
      (walkFrom compatible keys' filters' prefixCount) := by
  let w := walkFrom compatible keys filters prefixCount
  let w' := walkFrom compatible keys' filters' prefixCount
  have hwalk : w.template = w'.template := by
    rw [← walkFrom_template, ← walkFrom_template, hkeys, hfilters]
  have hlength : filters.length = filters'.length := by
    simpa only [List.length_map] using congrArg List.length hfilters
  have hextension : (w.toExtension filters.length).template =
      (w'.toExtension filters'.length).template := by
    rw [← toExtension_template, ← toExtension_template, hwalk, hlength]
  obtain ⟨-, -, hconsumed, hpartial, hrejected⟩ := Extension.mk.inj hextension
  refine ⟨?_, ?_, hconsumed, hpartial, hrejected⟩
  · refine forall₂_of_map_eq (congrArg Walk.bindings hwalk) ?_
    intro binding hbinding binding' hbinding' heq
    obtain ⟨hslot, -, hfilter⟩ := Binding.mk.inj heq
    exact ⟨hslot, (Prod.mk.inj hfilter).2, getElem?_position_of_mem hbinding,
      getElem?_position_of_mem hbinding'⟩
  · refine forall₂_of_map_eq (congrArg Walk.residual hwalk) ?_
    intro filter hfilter filter' hfilter' heq
    exact ⟨(Prod.mk.inj heq).2, getElem?_position_of_mem_residual hfilter,
      getElem?_position_of_mem_residual hfilter'⟩

end

/-- Within the index both requests are answered, and past it both are refused for the same excess.
The extensions come from walks with the same decisions. -/
structure AnsweredAlike (prefixCount : Nat) (keys keys' : List KeyColumn)
    (filters filters' : List Expr) : Prop where
  decisions : SameDecisions filters filters' (walkFrom compatible keys filters prefixCount)
    (walkFrom compatible keys' filters' prefixCount)
  answered : prefixCount ≤ keys.length → ∃ outcome outcome',
    requestExtension compatible keys filters prefixCount = .ok outcome ∧
      requestExtension compatible keys' filters' prefixCount = .ok outcome' ∧
        outcome.result = .ok (extend compatible keys filters prefixCount) ∧
          outcome'.result = .ok (extend compatible keys' filters' prefixCount)
  refused : keys.length < prefixCount →
    requestExtension compatible keys filters prefixCount = .error ⟨prefixCount, keys.length⟩ ∧
      requestExtension compatible keys' filters' prefixCount = .error ⟨prefixCount, keys.length⟩

theorem answeredAlike_of_map_eq {prefixCount : Nat} {keys keys' : List KeyColumn}
    {filters filters' : List Expr}
    (hkeys : keys.map KeyColumn.unnamed = keys'.map KeyColumn.unnamed)
    (hfilters : filters.map Expr.template = filters'.map Expr.template) :
    AnsweredAlike compatible prefixCount keys keys' filters filters' := by
  have hlength : keys.length = keys'.length := by
    simpa only [List.length_map] using congrArg List.length hkeys
  refine ⟨sameDecisions_walkFrom hkeys hfilters, ?_, ?_⟩
  · intro hwithin
    exact ⟨_, _, if_pos hwithin, if_pos (hlength ▸ hwithin), rfl, rfl⟩
  · intro hexcess
    have hrefused : ¬ prefixCount ≤ keys.length := by omega
    unfold requestExtension
    rw [← hlength, if_neg hrefused, if_neg hrefused]
    exact ⟨rfl, rfl⟩

end Seek

/-! ## Separation of filters -/

/-- The same keys by identity and kept length, and the same row handle by identity. -/
structure Index.SameLayout (index index' : Index) : Prop where
  keys : index.keys.map (fun key ↦ (key.id, key.kept)) =
    index'.keys.map fun key ↦ (key.id, key.kept)
  handle : index.handle.map Column.id = index'.handle.map Column.id

namespace Index

variable {index index' : Index}

theorem covers_congr (h : index.SameLayout index') (column : ColumnId) :
    index.covers column = index'.covers column := by
  have hkeys := congrArg (fun layout ↦ layout.any fun (id, kept) ↦ kept.isNone && id == column)
    h.keys
  have hhandle := congrArg (fun handle ↦ handle.any (· == column)) h.handle
  simp only [List.any_map, Option.any_map] at hkeys hhandle
  exact congrArg₂ or hkeys hhandle

theorem answers_template (index : Index) (filter : Expr) :
    index.answers filter.template = index.answers filter := by
  unfold answers
  rw [Expr.columns_template, List.all_map]
  rfl

/-- Indexes of one layout answer the same ones among filters with the same templates. -/
theorem map_answers_congr {filters filters' : List Expr} (h : index.SameLayout index')
    (hfilters : filters.map Expr.template = filters'.map Expr.template) :
    filters.map index.answers = filters'.map index'.answers := by
  have htemplate (index : Index) (filters : List Expr) :
      (filters.map Expr.template).map index.answers = filters.map index.answers := by
    rw [List.map_map]
    exact List.map_congr_left fun filter _ ↦ index.answers_template filter
  have hanswers : index.answers = index'.answers := by
    funext filter
    simp only [answers, covers_congr h]
  rw [← htemplate index, hfilters, htemplate index, hanswers]

end Index

namespace Path

/-- The filters on one side, where `sides` has a side for each of them. -/
def onSide (side : Bool) (filters : List Expr) (sides : List Bool) : List Expr :=
  ((filters.zip sides).filter fun (_, other) ↦ other == side).map Prod.fst

/-- The path after its table filters on the true side have gone behind its index filters. -/
def dividedBy (path : Path) (sides : List Bool) : Path :=
  { path with
    indexFilters := path.indexFilters ++ onSide true path.tableFilters sides
    tableFilters := onSide false path.tableFilters sides }

theorem onSide_map (side : Bool) (filters : List Expr) (answers : Expr → Bool) :
    onSide side filters (filters.map answers) =
      filters.filter fun filter ↦ answers filter == side := by
  unfold onSide
  rw [← List.map_prod_left_eq_zip, List.filter_map, List.map_map]
  exact List.map_id _

theorem separatedBy_eq_dividedBy (path : Path) (index : Index) :
    path.separatedBy index = path.dividedBy (path.tableFilters.map index.answers) := by
  simp only [separatedBy, dividedBy, onSide_map, beq_true, beq_false]

theorem separateFilters_of_index? {path : Path} {index : Index} (h : path.index? = some index)
    (hstage : path.stage = .equalityExtracted ∨ path.stage = .correlatedSplit) :
    path.separateFilters = .done (path.separatedBy index) () := by
  unfold separateFilters
  rw [h]
  simp only [hstage, if_true, List.partition_eq_filter_filter]
  rfl

/-- One choice of sides describes both separations. -/
def SeparatedAlike (path path' : Path) : Prop :=
  ∃ sides : List Bool, sides.length = path.tableFilters.length ∧
    path.separateFilters = .done (path.dividedBy sides) () ∧
      path'.separateFilters = .done (path'.dividedBy sides) ()

theorem separatedAlike_of_map_eq {path path' : Path} {index index' : Index}
    (hfilters : path.tableFilters.map Expr.template = path'.tableFilters.map Expr.template)
    (hindex : path.index? = some index) (hindex' : path'.index? = some index')
    (hlayout : index.SameLayout index')
    (hstage : path.stage = .equalityExtracted ∨ path.stage = .correlatedSplit)
    (hstage' : path'.stage = .equalityExtracted ∨ path'.stage = .correlatedSplit) :
    path.SeparatedAlike path' := by
  refine ⟨path.tableFilters.map index.answers, List.length_map _, ?_, ?_⟩
  · rw [separateFilters_of_index? hindex hstage, separatedBy_eq_dividedBy]
  · rw [separateFilters_of_index? hindex' hstage', separatedBy_eq_dividedBy,
      Index.map_answers_congr hlayout hfilters]

end Path

open Seek

/-- What filters are bound, kept or separated by is in their templates: other names and other fixed
values lead to the same decisions, over keys and indexes that may be named otherwise as well. -/
theorem decisions_of_templates {filters filters' : List Expr}
    (h : filters.map Expr.template = filters'.map Expr.template) :
    (∀ (compatible : Compatibility) (prefixCount : Nat) (keys keys' : List KeyColumn),
      keys.map KeyColumn.unnamed = keys'.map KeyColumn.unnamed →
        AnsweredAlike compatible prefixCount keys keys' filters filters') ∧
      ∀ (path path' : Path) (index index' : Index),
        path.tableFilters = filters → path'.tableFilters = filters' →
          path.index? = some index → path'.index? = some index' → index.SameLayout index' →
            (path.stage = .equalityExtracted ∨ path.stage = .correlatedSplit) →
              (path'.stage = .equalityExtracted ∨ path'.stage = .correlatedSplit) →
                path.SeparatedAlike path' := by
  constructor
  · intro compatible prefixCount keys keys' hkeys
    exact answeredAlike_of_map_eq compatible hkeys h
  · rintro path path' index index' rfl rfl hindex hindex' hlayout hstage hstage'
    exact Path.separatedAlike_of_map_eq h hindex hindex' hlayout hstage hstage'

def mixedIndex : Index where
  id := 1
  name := "abc"
  keys := mixedKeys
  unique := false
  handle := some ⟨7, "h", .plain .int⟩
  wellFormed := ⟨by decide, by decide, by decide⟩

/-- Another index with the same keys under other names. -/
def renamedIndex : Index where
  id := 2
  name := "xyz"
  keys := [⟨⟨1, "x", .plain .int⟩, none⟩, ⟨⟨2, "y", .plain .double⟩, some 10⟩,
    ⟨⟨3, "z", .plain .int⟩, none⟩]
  unique := true
  handle := some ⟨7, "r", .plain .unsignedInt⟩
  wellFormed := ⟨by decide, by decide, by decide⟩

/-- The repeated filters under the other names, with values from an enclosing query and with an
unknown value in place of their constants. -/
def reboundFilters : List Expr :=
  let outer : Expr := .correlated ⟨9, "o", .plain .text⟩
  let second (value : Expr) : Expr := .call .eq [.column ⟨2, "y", .plain .double⟩, value] .binary
  [second outer, second (.constant .null (.plain .json)),
    .call .eq [outer, .column ⟨3, "z", .plain .int⟩] .binary]

theorem decisions_of_templates_reboundFilters :
    let path := ((Path.index mixedIndex repeatedFilters).bindPrefix 0 0 []).state
    let path' := ((Path.index renamedIndex reboundFilters).bindPrefix 0 0 []).state
    repeatedFilters.map Expr.template = reboundFilters.map Expr.template ∧
      mixedIndex.keys.map KeyColumn.unnamed = renamedIndex.keys.map KeyColumn.unnamed ∧
        AnsweredAlike .byFamily 1 mixedIndex.keys renamedIndex.keys repeatedFilters
          reboundFilters ∧
        path.index? = some mixedIndex ∧ path'.index? = some renamedIndex ∧
          path.SeparatedAlike path' := by
  intro path path'
  have htemplates : repeatedFilters.map Expr.template = reboundFilters.map Expr.template := rfl
  obtain ⟨hanswered, hseparated⟩ := decisions_of_templates htemplates
  exact ⟨htemplates, rfl, hanswered .byFamily 1 _ _ rfl, rfl, rfl,
    hseparated path path' mixedIndex renamedIndex rfl rfl rfl rfl ⟨rfl, rfl⟩ (.inl rfl) (.inl rfl)⟩

/-- The first filter is bound by a part of its column and the last one by the whole of it; only the
last one can be checked on an entry of the index. -/
example :
    let w := walkFrom .byFamily renamedIndex.keys reboundFilters 1
    w.bound = [0, 2] ∧ w.kept = [0, 1] ∧
      reboundFilters.map renamedIndex.answers = [false, false, true] := by
  decide

end IndexAccess
