import RelQuery.Join.Run
import RelQuery.Path.Expansion
import RelQuery.Select.Page
import RelQuery.Select.Window

/-! Evaluation of queries. The sources are joined and filtered, the rows grouped, the groups filtered,
windows computed, and the output sorted, made distinct and cut. A query among the sources is evaluated
first, and so are the queries that arrow references lead to. -/
namespace RelQuery

structure ResultSet where
  columns : List String
  rows : List (List Value)
  deriving DecidableEq, Repr

namespace ResultSet

def columnIndex? (r : ResultSet) (name : String) : Option Nat := r.columns.findIdx? (· == name)

def get? (r : ResultSet) (row : Nat) (name : String) : Option Value := do
  let i ← r.columnIndex? name
  (← r.rows[row]?)[i]?

def column? (r : ResultSet) (name : String) : Option (List Value) :=
  (r.columnIndex? name).map fun i => r.rows.map (Row.valueAt · i)

end ResultSet

/-- What statements are evaluated in. Unqualified tables are those of `database`. -/
structure Context where
  catalog : Catalog
  storage : Storage
  database : String

namespace Context

def tableName (ctx : Context) (database : Option String) (table : String) : TableName :=
  ⟨database.getD ctx.database, table⟩

def schema (ctx : Context) (database : Option String) (table : String) : Outcome TableSchema :=
  ctx.catalog.lookup (database.getD ctx.database) table

def store (ctx : Context) (database : Option String) (table : String) : Outcome TableStore :=
  ctx.storage.store (ctx.tableName database table)

end Context

namespace SelectOf

def isGrouped (q : Select) (fields : List OutputField) : Bool :=
  !q.groupBy.isEmpty || q.having.isSome || fields.any (·.expr.hasPlainAggregate) ||
    q.orderBy.any (·.expr.hasPlainAggregate)

/-- Keeps the groups that satisfy HAVING. -/
def filterGroups (q : Select) (params : List Value) (outputs : List Output) :
    Outcome (List Output) :=
  match q.having with
  | none => .ok outputs
  | some e => outputs.filterM fun o => e.satisfied (o.fieldScope params)

/-- Fills the slot of a window field. -/
def fillWindow (state : Windows × List Output) (field : OutputField × Nat) :
    Outcome (Windows × List Output) := do
  let (w, values) ← state.1.evalField field.1.expr state.2
  return (w, (state.2.zip values).map fun (o, v) => o.setField field.2 v)

def checkWindows (w : Windows) : Outcome Unit :=
  w.definitions.forM fun d => do
    let _ ← w.resolve (.named d.1)

def fillWindows (q : Select) (fields : List OutputField) (params : List Value)
    (outputs : List Output) : Outcome (List Output) := do
  let w := Windows.new q.windows params
  checkWindows w
  let (_, outputs) ← (OutputField.ofKind fields .window).foldlM fillWindow (w, outputs)
  return outputs

/-- The output rows, one for each row or for each group. -/
def group (q : Select) (fields : List OutputField) (params : List Value) (rows : List Composition)
    (empty : Outcome Composition) : Outcome (List Output) :=
  if q.isGrouped fields then Output.ofGroups rows q.groupBy params empty
  else .ok (rows.map Output.ofRow)

/-- The output rows before HAVING, with the fields filled that do not need all of them. -/
def outputs (q : Select) (fields : List OutputField) (params : List Value)
    (rows : List Composition) (empty : Composition) : Outcome (List Output) := do
  let rows ← rows.mapM (OutputField.project fields params)
  let outputs ← q.group fields params rows (OutputField.project fields params empty)
  outputs.mapM (OutputField.aggregateInto fields params)

/-- The result of a query over the joined and filtered rows. -/
def result (q : Select) (params : List Value) (rows : List Composition) (empty : Composition) :
    Outcome ResultSet := do
  let fields ← OutputField.ofFields empty q.fields
  let outputs ← q.outputs fields params rows empty
  let outputs ← q.filterGroups params outputs
  let outputs ← q.fillWindows fields params outputs
  let outputs ← Output.sort outputs q.orderBy params
  let projected := outputs.map (·.row.project)
  let distinct := if q.distinct then Grouping.firsts Key.order projected else projected
  return ⟨fields.map (·.name), (Page.new q.limit q.offset).apply distinct⟩

/-- Evaluates a query without arrow references, given how its sources are evaluated. -/
def evalWith (q : Select) (evaluate : Source → Outcome Relation) (params : List Value) :
    Outcome ResultSet :=
  match q.sources with
  | [] => .refuse .selectWithoutSource
  | main :: rest => do
      let run ← JoinRun.start evaluate main (rest.map JoinOf.cross ++ q.joins) q.condition params
      q.result params (← run.collect.2) run.emptyComposition

/-- How many markers the references of some expressions have at most, one more for each reference. -/
def pathDepth (es : List Expr) : Nat :=
  (es.flatMap Expr.nodes).foldl (fun n e => match e with
    | .path _ reference => max n (Path.markers reference + 1)
    | _ => n) 0

def fieldExprs (q : Select) : List Expr := q.fields.filterMap fun
  | .expr e _ => some e
  | .star _ => none

/-- The expressions in which references are expanded. -/
def exprs (q : Select) : List Expr :=
  q.fieldExprs ++ q.condition.toList ++ q.groupBy ++ q.having.toList ++ q.orderBy.map (·.expr) ++
    q.windows.flatMap (·.2.exprs)

end SelectOf

namespace Source

mutual

/-- A bound on how deep queries nest under a source once references are expanded. -/
def depth : Source → Nat
  | .table _ _ _ => 0
  | .derived query _ => depthOfQuery query + 1
  termination_by structural s => s

def depthOfQuery : SelectOf Source → Nat
  | ⟨distinct, fields, sources, joins, condition, groupBy, having, windows, orderBy, limit, offset⟩ =>
      max
        (SelectOf.pathDepth (SelectOf.exprs
          ⟨distinct, fields, [], [], condition, groupBy, having, windows, orderBy, limit, offset⟩))
        (max (depthOfSources sources) (depthOfJoins joins))
  termination_by structural q => q

def depthOfSources : List Source → Nat
  | [] => 0
  | s :: rest => max (depth s) (depthOfSources rest)
  termination_by structural ss => ss

def depthOfJoins : List (JoinOf Source) → Nat
  | [] => 0
  | ⟨_, source, _, _⟩ :: rest => max (depth source) (depthOfJoins rest)
  termination_by structural js => js

end

end Source

namespace Context

/-- Evaluates a query whose sources nest less deep than `levels`. -/
def selectWithin (ctx : Context) (params : List Value) : Nat → Select → Outcome ResultSet
  | levels, q => do
      let q ← q.expand ctx.catalog ctx.database
      q.evalWith (fun source =>
        match source with
        | .table database name _ => do
            return .ofTable (ctx.tableName database name) (← ctx.store database name)
        | .derived query _ =>
            match levels with
            | 0 => .error (.invalidOperation .nestedTooDeep)
            | levels + 1 => do
                let r ← selectWithin ctx params levels query
                return .ofResult (.new r.columns r.rows)) params

def select (ctx : Context) (params : List Value) (q : Select) : Outcome ResultSet :=
  ctx.selectWithin params (Source.depthOfQuery q + 1) q

/-- Evaluates a source of a statement. -/
def relation (ctx : Context) (params : List Value) : Source → Outcome Relation
  | .table database name _ => do
      return .ofTable (ctx.tableName database name) (← ctx.store database name)
  | .derived query _ => do
      let r ← ctx.select params query
      return .ofResult (.new r.columns r.rows)

end Context

end RelQuery
