import RelQuery.Expr.Substitution
import RelQuery.Path.Links
import RelQuery.Statement.Text

/-! Expansion of arrow references. A statement's references become columns of left joins that are added
after its own. A field that selects every column of a table becomes one field for each. Queries in
the sources are left alone: they are expanded when they are evaluated. -/
namespace RelQuery

/-- Where the references of a statement are resolved. -/
structure PathScope where
  catalog : Catalog
  database : String
  sources : List Source

/-- A table that references start from. -/
structure PathBase where
  name : String
  database : Option String
  table : String

/-- An action that may add links. -/
abbrev Linking := StateT Links Outcome

namespace PathScope

/-- The source of a name, or the first one. -/
def source (s : PathScope) (name : Option String) : Outcome Source :=
  match name with
  | none =>
      match s.sources.head? with
      | some source => .ok source
      | none => .refuse .pathWithoutSource
  | some name =>
      match s.sources.find? (·.name == name) with
      | some source => .ok source
      | none => .error (.schema (.unknownAlias name))

def base (s : PathScope) (name : Option String) : Outcome PathBase := do
  match ← s.source name with
  | .table database table rename => return ⟨rename.getD table, database, table⟩
  | .derived _ name => .refuse (.pathFromDerived name)

def databaseOf (s : PathScope) (b : PathBase) : String := b.database.getD s.database

/-- The source, the first step and the last step of a reference. -/
def resolve (s : PathScope) (name : Option String) (reference : String) :
    Outcome (PathBase × Binding × Binding) := do
  let base ← s.base name
  let binding ← Binding.resolve s.catalog (s.databaseOf base) (some base.table) reference
  let last ← binding.terminal s.catalog (s.databaseOf base)
  return (base, binding, last)

/-- The column that replaces a reference. -/
def link (s : PathScope) (name : Option String) (reference : String) : Linking Expr := do
  let (base, binding, last) ← s.resolve name reference
  if last.selectsAll then
    throw (.validation (.starOutsideField reference))
  else
    let links ← get
    let (links, ref) := links.attach base.name base.database binding
    set links
    return .column ref

def expandExpr (s : PathScope) (e : Expr) : Linking Expr :=
  e.substituteM fun
    | .path name reference => some (s.link name reference)
    | _ => none

def expandKey (s : PathScope) (k : SortKey Expr) : Linking (SortKey Expr) := do
  return { k with expr := ← s.expandExpr k.expr }

/-- The part of a star reference that stands before a column name. -/
def stem (reference : String) : String :=
  match reference.toList.reverse with
  | '*' :: rest => String.ofList rest.reverse
  | _ => reference ++ String.ofList Marker.outgoing.chars

/-- One field for each column of the table where a star reference ends. -/
def expandStar (s : PathScope) (name : Option String) (reference : String) (base : PathBase)
    (last : Binding) : Linking (List Field) := do
  let table ← s.catalog.lookup (s.databaseOf base) last.target.table
  table.columnNames.mapM fun column => do
    let expanded := stem reference ++ column
    return .expr (← s.link name expanded) (some expanded)

/-- Fields keep their names. -/
def expandField (s : PathScope) (f : Field) : Linking (List Field) :=
  match f with
  | .expr (.path name reference) rename => do
      let (base, _, last) ← s.resolve name reference
      if last.selectsAll then s.expandStar name reference base last
      else return [.expr (← s.link name reference) (some (rename.getD reference))]
  | .expr e rename =>
      if e.hasPath then do return [.expr (← s.expandExpr e) (some (rename.getD e.text))]
      else return [f]
  | .star _ => return [f]

def expandFields (s : PathScope) (fields : List Field) : Linking (List Field) := do
  return (← fields.mapM s.expandField).flatten

def expandWindow (s : PathScope) (w : String × WindowSpec Expr) :
    Linking (String × WindowSpec Expr) := do
  let partitionBy ← w.2.partitionBy.mapM s.expandExpr
  let orderBy ← w.2.orderBy.mapM s.expandKey
  return (w.1, { w.2 with partitionBy := partitionBy, orderBy := orderBy })

/-- Runs an expansion, from no links, and answers the joins that it made. -/
def run {α : Type} (s : PathScope) (expansion : PathScope → Linking α) : Outcome (α × List Join) := do
  let (a, links) ← (expansion s).run (Links.new (s.sources.map Source.name))
  return (a, links.toJoins)

end PathScope

namespace Field

def hasPath : Field → Bool
  | expr e _ => e.hasPath
  | star _ => false

end Field

namespace WindowSpec

def hasPath (s : WindowSpec Expr) : Bool := s.exprs.any Expr.hasPath

end WindowSpec

namespace SelectOf

def hasPath (q : Select) : Bool :=
  q.fields.any Field.hasPath || q.condition.any Expr.hasPath || q.groupBy.any Expr.hasPath ||
    q.having.any Expr.hasPath || q.orderBy.any (·.expr.hasPath) || q.windows.any (·.2.hasPath)

def allSources (q : Select) : List Source := q.sources ++ q.joins.map (·.source)

def expandWith (q : Select) (s : PathScope) : Linking Select := do
  let fields ← s.expandFields q.fields
  let condition ← q.condition.mapM s.expandExpr
  let groupBy ← q.groupBy.mapM s.expandExpr
  let having ← q.having.mapM s.expandExpr
  let orderBy ← q.orderBy.mapM s.expandKey
  let windows ← q.windows.mapM s.expandWindow
  return { q with
    fields := fields, condition := condition, groupBy := groupBy, having := having
    orderBy := orderBy, windows := windows }

/-- A query without arrow references, in which joins take their place. -/
def expand (q : Select) (catalog : Catalog) (database : String) : Outcome Select :=
  if q.hasPath then do
    let (q', joins) ← PathScope.run ⟨catalog, database, q.allSources⟩ q.expandWith
    return { q' with joins := q'.joins ++ joins }
  else .ok q

end SelectOf

namespace Update

def hasPath (u : Update) : Bool := u.condition.any Expr.hasPath || u.set.any (·.value.hasPath)

def expandWith (u : Update) (s : PathScope) : Linking Update := do
  let condition ← u.condition.mapM s.expandExpr
  let set ← u.set.mapM fun a => do return { a with value := ← s.expandExpr a.value }
  return { u with condition := condition, set := set }

def expand (u : Update) (catalog : Catalog) (database : String) : Outcome Update :=
  if u.hasPath then do
    let sources := u.target :: u.joins.map (·.source)
    let (u', joins) ← PathScope.run ⟨catalog, database, sources⟩ u.expandWith
    return { u' with joins := u'.joins ++ joins }
  else .ok u

end Update

namespace Delete

/-- References start from the sources of the USING clause, where there is one. -/
def expand (d : Delete) (catalog : Catalog) (database : String) : Outcome Delete :=
  match d.condition with
  | none => .ok d
  | some e =>
      if e.hasPath then do
        let sources := match d.usingClause with
          | some u => u.source :: u.joins.map (·.source)
          | none => d.sources ++ d.joins.map (·.source)
        let (e', joins) ← PathScope.run ⟨catalog, database, sources⟩ (·.expandExpr e)
        let d := { d with condition := some e' }
        match d.usingClause with
        | some u => return { d with usingClause := some { u with joins := u.joins ++ joins } }
        | none => return { d with joins := d.joins ++ joins }
      else .ok d

end Delete

end RelQuery
