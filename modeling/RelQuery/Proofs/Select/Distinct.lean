import RelQuery.Proofs.Grouping
import RelQuery.Proofs.Path.Mirrors
import RelQuery.Proofs.Path.Preserved
import RelQuery.Proofs.Select.Kept
import RelQuery.Proofs.Select.Naming

/-! Queries of columns without repeated rows. Such a query keeps the first of equal rows, whether it is made distinct
or grouped by its own columns: a column that is read again beside the output fields has the value that it was
projected with, and so the key of a row is its projection. -/
namespace RelQuery

def columnExprs (columns : List NamedColumn) : List Expr := columns.map fun f => .column f.1

namespace OutputField

variable {columns : List NamedColumn} {params : List Value} {c c' : Composition} {s : Scope} {v : Value}

theorem columnKept {ref : ColumnRef} {more : List (String × Slot)} (qualified : ref.table.isSome)
    (sources : s.row.sources = c.sources) (slots : s.row.slots = c.slots ++ more)
    (read : (Scope.ofRow c params).column ref = .ok v) : s.column ref = .ok v := by
  obtain ⟨table, column⟩ := ref
  cases table with
  | none => cases qualified
  | some table =>
      have keeps : (Scope.ofRow c params).row.Keeps s.row := Composition.appendKeeps sources slots
      exact Scope.qualifiedKept keeps table column v read

/-- Columns that are read again have the values that they were projected with. -/
theorem projectAgain (qualified : ∀ f ∈ columns, f.1.table.isSome)
    (ok : project (columns.map reading) params c = .ok c') : c'.sources = c.sources ∧
      ∃ added, c'.slots = c.slots ++ added ∧ ∀ s : Scope, s.row = c' →
        ∃ vs, Expr.evalList (columnExprs columns) s = .ok vs ∧ c'.project = c.project ++ vs := by
  induction columns generalizing c with
  | nil =>
      cases ok
      exact ⟨rfl, [], by simp, fun s _ => ⟨[], rfl, by simp⟩⟩
  | cons f columns ih =>
      obtain ⟨v, read, ok⟩ := projectNext ok
      obtain ⟨own, others⟩ := List.forall_mem_cons.mp qualified
      obtain ⟨sources, added, slots, again⟩ := ih others ok
      refine ⟨sources, _, by rw [slots, Composition.pushSlot, List.append_assoc], fun s row => ?_⟩
      obtain ⟨vs, rest, projected⟩ := again s row
      refine ⟨v :: vs, ?_, ?_⟩
      · have slots' : s.row.slots = c.slots ++ ([((reading f).name, .value v)] ++ added) := by
          rw [row, slots, Composition.pushSlot, List.append_assoc]
        have head : s.column f.1 = .ok v := columnKept own (row ▸ sources) slots' read
        rw [columnExprs, List.map_cons, Expr.evalList, ← columnExprs, rest]
        exact Outcome.bindOk.mpr ⟨v, head, rfl⟩
      · rw [projected]
        simp [Composition.project, Composition.pushSlot]

/-- The key of a row that is grouped by its own columns. -/
theorem projectKey (qualified : ∀ f ∈ columns, f.1.table.isSome) (fresh : c.slots = [])
    (ok : project (columns.map reading) params c = .ok c') :
    Output.groupKey (columnExprs columns) params c' = .ok c'.project := by
  obtain ⟨_, _, _, again⟩ := projectAgain qualified ok
  obtain ⟨vs, read, projected⟩ := again ((Output.ofRow c').fieldScope params) rfl
  have start : c.project = [] := by rw [Composition.project, fresh, List.map_nil]
  rw [Output.groupKey, read, projected, start, List.nil_append]

end OutputField

namespace ResultSet

/-- Keeps the first of equal rows. -/
def unrepeated (r : ResultSet) : ResultSet := ⟨r.columns, r.rows.eraseDupsBy Key.same⟩

end ResultSet

namespace SelectOf

variable {q : Select} {columns : List NamedColumn} {fields : List OutputField} {params : List Value}
  {rows : List Composition} {empty : Composition}

def varied (q : Select) (distinct : Bool) (groupBy : List Expr) : Select :=
  { q with distinct := distinct, groupBy := groupBy }

theorem resultOutputs (plain : q.Plain) (distinct : Bool) (groupBy : List Expr)
    (own : OutputField.ofFields empty q.fields = .ok fields) (direct : ∀ f ∈ fields, f.kind = .direct) :
    (q.varied distinct groupBy).result params rows empty =
      ((q.varied distinct groupBy).outputs fields params rows empty).map fun outputs =>
        let projected := outputs.map (·.row.project)
        ⟨fields.map (·.name), if distinct then Grouping.firsts Key.order projected else projected⟩ := by
  have own' : OutputField.ofFields empty (q.varied distinct groupBy).fields = .ok fields := own
  rw [SelectOf.result, own']
  simp only [bind, Except.bind]
  cases (q.varied distinct groupBy).outputs fields params rows empty with
  | error e => rfl
  | ok outputs =>
      have none : (q.varied distinct groupBy).fillWindows fields params outputs = .ok outputs := by
        rw [fillWindows, OutputField.directKinds direct (by simp)]
        simp only [varied, plain.windows]
        rfl
      simp only [filterGroups, varied, plain.having, Output.sort, plain.orderBy, plain.limit, plain.offset] at none ⊢
      simp only [none, Page.new, Page.apply, Option.getD_none, List.drop_zero]
      rfl

/-- The first member of each group projects to its key, which is the first of the keys that are equal to it. -/
theorem groupsProject (cs : List Composition) :
    ((Grouping.ofKeyed (cs.map fun c => (c.project, c))).filterMap Output.ofGroup).map (·.row.project) =
      (cs.map (·.project)).eraseDupsBy Key.same := by
  have keys : (cs.map fun c => (c.project, c)).map (·.1) = cs.map (·.project) := by
    rw [List.map_map]
    rfl
  rw [Grouping.ofKeyedEq, keys, List.filterMap_map, List.map_filterMap]
  refine (List.filterMap_congr fun key kept => ?_).trans List.filterMap_some
  have first := Grouping.firstsFind kept
  rw [List.find?_map] at first
  have head : (Grouping.membersOf (cs.map fun c => (c.project, c)) key).head? =
      cs.find? fun c => Key.same c.project key := by
    rw [Grouping.membersOf, List.head?_map, List.head?_filter, List.find?_map, Option.map_map]
    exact Option.map_id'
  rw [Function.comp_apply, Output.ofGroup, head, Option.map_map]
  exact first

theorem keyedProjected {cs : List Composition} (qualified : ∀ f ∈ columns, f.1.table.isSome)
    (fresh : ∀ c ∈ rows, c.slots = [])
    (projected : rows.mapM (OutputField.project (columns.map OutputField.reading) params) = .ok cs) :
    (cs.mapM fun c => do return (← Output.groupKey (columnExprs columns) params c, c)) =
      (.ok (cs.map fun c => (c.project, c)) : Outcome (List (Key × Composition))) := by
  refine Outcome.mapMOk.mpr (List.forall₂_map_right_iff.mpr (List.forall₂_same.mpr fun c' member => ?_))
  obtain ⟨c, inside, projects⟩ := alikeMember (Outcome.mapMOk.mp projected) member
  rw [OutputField.projectKey qualified (fresh c inside) projects]
  rfl

theorem outputsGrouped (reads : q.ReadsColumns columns) (qualified : ∀ f ∈ columns, f.1.table.isSome)
    (fresh : ∀ c ∈ rows, c.slots = []) :
    (q.varied false (columnExprs columns)).outputs (columns.map OutputField.reading) params rows empty =
      (rows.mapM (OutputField.project (columns.map OutputField.reading) params)).map fun cs =>
        (Grouping.ofKeyed (cs.map fun c => (c.project, c))).filterMap Output.ofGroup := by
  have grouped : (q.varied false (columnExprs columns)).isGrouped (columns.map OutputField.reading) = true := by
    simp [isGrouped, varied, columnExprs, reads.some]
  have some : ¬(columnExprs columns).isEmpty = true := by simpa [columnExprs] using reads.some
  rw [outputs]
  cases projected : rows.mapM (OutputField.project (columns.map OutputField.reading) params) with
  | error e => rfl
  | ok cs =>
      have listed : (q.varied false (columnExprs columns)).groupBy = columnExprs columns := rfl
      simp only [bind, Except.bind]
      rw [group, if_pos grouped, listed, Output.ofGroups, if_neg some, keyedProjected qualified fresh projected]
      exact OutputField.aggregateDirect (OutputField.readingDirect columns) _

theorem resultDistinct (reads : q.ReadsColumns columns) : (q.varied true []).result params rows empty =
    (q.result params rows empty).map ResultSet.unrepeated := by
  have same : (q.varied true []).outputs (columns.map OutputField.reading) params rows empty =
      q.outputs (columns.map OutputField.reading) params rows empty := by
    simp only [outputs, group, isGrouped, varied, reads.groupBy]
    rfl
  rw [resultOutputs reads.toPlain true [] (fieldsRead reads) (OutputField.readingDirect columns), same,
    outputsPlain reads.toPlain (OutputField.readingDirect columns),
    resultPlain reads.toPlain (fieldsRead reads) (OutputField.readingDirect columns)]
  cases rows.mapM (OutputField.project (columns.map OutputField.reading) params) with
  | error e => rfl
  | ok cs =>
      simp only [Except.map, ResultSet.unrepeated, if_true, Grouping.firstsKeys, List.map_map]
      rfl

theorem resultGrouped (reads : q.ReadsColumns columns) (qualified : ∀ f ∈ columns, f.1.table.isSome)
    (fresh : ∀ c ∈ rows, c.slots = []) :
    (q.varied false (columnExprs columns)).result params rows empty =
      (q.result params rows empty).map ResultSet.unrepeated := by
  rw [resultOutputs reads.toPlain false _ (fieldsRead reads) (OutputField.readingDirect columns),
    outputsGrouped reads qualified fresh,
    resultPlain reads.toPlain (fieldsRead reads) (OutputField.readingDirect columns)]
  cases rows.mapM (OutputField.project (columns.map OutputField.reading) params) with
  | error e => rfl
  | ok cs =>
      simp only [Except.map, ResultSet.unrepeated, Bool.false_eq_true, if_false, groupsProject]

/-! Expansion -/

section
variable {catalog : Catalog} {database : String} {X : Select} {s : PathScope} {distinct : Bool}

theorem expandReads (reads : q.ReadsColumns columns) (ok : q.expand catalog database = .ok X) :
    X.ReadsColumns columns := by
  obtain ⟨entries, _, _, _, ⟨rfl, _⟩ | ⟨σ, _, rfl⟩⟩ := expandLinks (fun _ there => there) ok
  · exact reads
  · have fields : q.fields.flatMap (PathScope.linkedField ⟨catalog, database, q.allSources⟩ σ) = q.fields := by
      rw [reads.fields, List.flatMap_map]
      exact List.map_eq_flatMap.symm
    exact {
      distinct := reads.distinct
      groupBy := by simp [PathScope.linkedQuery, reads.groupBy]
      having := by simp [PathScope.linkedQuery, reads.having]
      windows := by simp [PathScope.linkedQuery, reads.windows]
      orderBy := by simp [PathScope.linkedQuery, reads.orderBy]
      limit := reads.limit
      offset := reads.offset
      some := reads.some
      fields := fields.trans reads.fields }

theorem columnsPlain (columns : List NamedColumn) : (columnExprs columns).any Expr.hasPath = false := by
  rw [columnExprs, List.any_map, List.any_eq_false]
  exact fun f _ => nofun

theorem pathVaried (ungrouped : q.groupBy = []) (columns : List NamedColumn) :
    (q.varied distinct (columnExprs columns)).hasPath = q.hasPath := by
  simp only [hasPath, varied, ungrouped, columnsPlain, List.any_nil]

theorem expandColumns (s : PathScope) (columns : List NamedColumn) :
    (columnExprs columns).mapM s.expandExpr = pure (columnExprs columns) := by
  have each : (s.expandExpr ∘ fun f : NamedColumn => Expr.column f.1) = fun f => pure (.column f.1) := by
    funext f
    simp [PathScope.expandExpr, Expr.substituteM]
  rw [columnExprs, List.mapM_map, each]
  exact List.mapM_pure

theorem expandWithVaried (ungrouped : q.groupBy = []) (columns : List NamedColumn) :
    (q.varied distinct (columnExprs columns)).expandWith s =
      (fun X => X.varied distinct (columnExprs columns)) <$> q.expandWith s := by
  unfold expandWith
  simp [varied, expandColumns, ungrouped, -List.mapM_map]

theorem expandVaried (ungrouped : q.groupBy = []) (distinct : Bool) (columns : List NamedColumn) :
    (q.varied distinct (columnExprs columns)).expand catalog database =
      (q.expand catalog database).map (·.varied distinct (columnExprs columns)) :=
  expandChanged (·.varied distinct (columnExprs columns)) (pathVaried ungrouped columns) rfl
    (fun _ => expandWithVaried ungrouped columns) fun _ _ => rfl

theorem columnReferences (columns : List NamedColumn) :
    (columnExprs columns).flatMap PathScope.exprReferences = [] := by
  rw [columnExprs, List.flatMap_map]
  exact List.flatMap_eq_nil_iff.mpr fun _ _ => rfl

theorem depthVaried (ungrouped : q.groupBy = []) (distinct : Bool) (columns : List NamedColumn) :
    Source.depthOfQuery (q.varied distinct (columnExprs columns)) = Source.depthOfQuery q := by
  have same : (q.varied distinct (columnExprs columns)).exprs.flatMap PathScope.exprReferences =
      q.exprs.flatMap PathScope.exprReferences := by
    simp only [exprs, List.flatMap_append, varied, ungrouped, columnReferences, List.flatMap_nil]
    rfl
  exact depthAlike rfl rfl fun p => by rw [same]

end

/-! Evaluation -/

variable {evaluate : Source → Outcome Relation} {ctx : Context}

/-- Whether a variant of the query has the rows of the query, without those that equal an earlier one. -/
def Unrepeats (columns : List NamedColumn) (params : List Value) (distinct : Bool) (groupBy : List Expr) : Prop :=
  ∀ (q : Select) (rows : List Composition) (empty : Composition), q.ReadsColumns columns →
    (∀ c ∈ rows, c.slots = []) → (q.varied distinct groupBy).result params rows empty =
      (q.result params rows empty).map ResultSet.unrepeated

theorem evalVaried {distinct : Bool} {groupBy : List Expr} (reads : q.ReadsColumns columns)
    (unrepeats : Unrepeats columns params distinct groupBy) :
    (q.varied distinct groupBy).evalWith evaluate params =
      (q.evalWith evaluate params).map ResultSet.unrepeated := by
  have sources : (q.varied distinct groupBy).sources = q.sources := rfl
  unfold evalWith
  rw [sources]
  cases q.sources with
  | nil => rfl
  | cons main rest =>
      rw [Outcome.mapBind]
      refine Outcome.bindNext fun run _ => ?_
      rw [Outcome.mapBind]
      refine Outcome.bindNext fun rows passed => unrepeats q rows _ reads fun c member => ?_
      exact JoinRun.passesSlots (JoinRun.collectPasses passed c member)

theorem selectVaried {distinct : Bool} (reads : q.ReadsColumns columns) (keys : List NamedColumn)
    (unrepeats : Unrepeats columns params distinct (columnExprs keys)) :
    ctx.select params (q.varied distinct (columnExprs keys)) =
      (ctx.select params q).map ResultSet.unrepeated := by
  rw [Context.select, Context.select, depthVaried reads.groupBy, Context.selectWithinEq, Context.selectWithinEq,
    expandVaried reads.groupBy]
  cases expanded : q.expand ctx.catalog ctx.database with
  | error e => rfl
  | ok X => exact evalVaried (expandReads reads expanded) unrepeats

end SelectOf

namespace Context

variable {q : Select} {columns : List NamedColumn}

/-- A query of columns is made distinct by grouping it by these columns: either way it keeps its rows but those that
equal an earlier one, and fails only as it did. -/
theorem distinctGroups (ctx : Context) (params : List Value) (reads : q.ReadsColumns columns)
    (qualified : ∀ f ∈ columns, f.1.table.isSome) :
    ctx.select params { q with distinct := true } =
        ctx.select params { q with groupBy := columnExprs columns } ∧
      (∀ e, ctx.select params q = .error e ↔ ctx.select params { q with distinct := true } = .error e) ∧
      ∀ r, ctx.select params q = .ok r → ∃ kept,
        ctx.select params { q with distinct := true } = .ok ⟨r.columns, kept⟩ ∧
          Grouping.FirstOccurrences r.rows kept := by
  have distinct : ctx.select params { q with distinct := true } =
      (ctx.select params q).map ResultSet.unrepeated := by
    have own : { q with distinct := true } = q.varied true [] := by rw [SelectOf.varied, ← reads.groupBy]
    rw [own]
    exact SelectOf.selectVaried reads [] fun _ _ _ reads _ => SelectOf.resultDistinct reads
  have grouped : ctx.select params { q with groupBy := columnExprs columns } =
      (ctx.select params q).map ResultSet.unrepeated := by
    have own : { q with groupBy := columnExprs columns } = q.varied false (columnExprs columns) := by
      rw [SelectOf.varied, ← reads.distinct]
    rw [own]
    exact SelectOf.selectVaried reads columns fun _ _ _ reads fresh =>
      SelectOf.resultGrouped reads qualified fresh
  refine ⟨distinct.trans grouped.symm, fun e => ?_, fun r ok => ?_⟩
  · rw [distinct, Outcome.mapError]
  · refine ⟨r.rows.eraseDupsBy Key.same, ?_, Grouping.firstOccurrences r.rows⟩
    rw [distinct, ok]
    rfl

/-- Gauges, and levels that some of them show. -/
def gauges : Context :=
  let catalog : Catalog := ⟨"main", [(⟨"main", "gauges"⟩, keyed "gauges" "id" [.new "level" .int64])]⟩
  { catalog := catalog
    storage := (Storage.ofCatalog catalog).fill ⟨"main", "gauges"⟩
      [[.int 1, .int 3], [.int 2, .null], [.int 3, .float (.ofInt64 3)], [.int 4, .null]]
    database := "main" }

def levels : Select where
  distinct := false
  fields := [.expr (.column ⟨some "g", "level"⟩) none]
  sources := [.table none "gauges" (some "g")]
  joins := []
  condition := none
  groupBy := []
  having := none
  windows := []
  orderBy := []
  limit := none
  offset := none

theorem levelsRead : levels.ReadsColumns [(⟨some "g", "level"⟩, none)] :=
  ⟨⟨rfl, rfl, rfl, rfl, rfl, rfl, rfl⟩, by decide, rfl⟩

theorem distinctGroupsLevels :
    gauges.select [] levels = .ok ⟨["level"], [[.int 3], [.null], [.float (.ofInt64 3)], [.null]]⟩ ∧
      gauges.select [] { levels with distinct := true } =
        gauges.select [] { levels with groupBy := [.column ⟨some "g", "level"⟩] } ∧
      gauges.select [] { levels with distinct := true } = .ok ⟨["level"], [[.int 3], [.null]]⟩ :=
  ⟨by decide +kernel, (distinctGroups gauges [] levelsRead (by simp)).1, by decide +kernel⟩

end Context

end RelQuery
