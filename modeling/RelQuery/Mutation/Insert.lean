import RelQuery.Mutation.Affected

/-! INSERT. The rows are evaluated first and then added to the table in one batch. Where ON DUPLICATE
assigns columns, its expressions see the stored row under the table's name and the incoming row under
a name of its own; unqualified columns are those of the stored row. -/
namespace RelQuery.Insert

/-- The name of the incoming row in ON DUPLICATE assignments. -/
def incomingName : String := "excluded"

/-- The columns that the values are given for. -/
def columnsFor (s : Insert) (schema : TableSchema) : List String :=
  match s.values with
  | .assignments set => set.map (·.target.column)
  | _ => if s.columns.isEmpty then schema.columnNames else s.columns

/-- The values to insert. Their expressions have no sources. -/
def valuesFor (s : Insert) (ctx : Context) (params : List Value) : Outcome (List (List Value)) :=
  let scope := Scope.ofRow .empty params
  match s.values with
  | .rows rows => rows.mapM fun row => Expr.evalList row scope
  | .query q => do return (← ctx.select params q).rows
  | .assignments set => do return [← Expr.evalList (set.map (·.value)) scope]

def checkWidth (table : String) (columns : List String) (rows : List (List Value)) : Outcome Unit :=
  match rows.find? (·.length != columns.length) with
  | some row => .refuse (.insertWidth table columns.length row.length)
  | none => .ok ()

/-- The position of a column that ON DUPLICATE assigns. -/
def assignedColumn (name : String) (columns : List String) (a : Assignment) : Outcome Nat :=
  if a.target.table.any (· != name) then .refuse (.foreignAssignment name a.target.text)
  else
    match columns.findIdx? (· == a.target.column) with
    | some i => .ok i
    | none => .error (.schema (.columnNotFound name a.target.column))

/-- The stored and the incoming row as a composition. -/
def collision (name : String) (columns : List String) (existing incoming : Row) : Composition :=
  (Composition.empty.push name ⟨columns, some existing, false⟩).push incomingName
    ⟨columns, some incoming, true⟩

/-- The stored row's values with the assignments applied. -/
def overwritten (positions : List Nat) (values : List Value) (existing : Row) : List Value :=
  (positions.zip values).foldl (fun vs (i, v) => vs.set i v) existing.values

def updateHandler (name : String) (columns : List String) (params : List Value)
    (positions : List Nat) (set : List Assignment) : DuplicateHandler Unit :=
  fun existing incoming _ =>
    let scope := Scope.ofRow (collision name columns existing incoming) params
    ((Expr.evalList (set.map (·.value)) scope).map fun values =>
      .update (overwritten positions values existing), ())

def handlerFor (s : Insert) (store : TableStore) (params : List Value) :
    Outcome (Option (DuplicateHandler Unit)) :=
  match s.onDuplicate with
  | none => .ok none
  | some .ignore => .ok (some fun _ _ _ => (.ok .ignore, ()))
  | some (.update set) => do
      let positions ← set.mapM (assignedColumn s.target.name store.columns)
      return some (updateHandler s.target.name store.columns params positions set)

/-- A batch that is ready to be added. -/
structure Batch where
  store : TableStore
  columns : List String
  rows : List (List Value)
  handler : Option (DuplicateHandler Unit)

def prepare (s : Insert) (ctx : Context) (params : List Value) (database : Option String)
    (table : String) : Outcome Batch := do
  let schema ← ctx.schema database table
  let store ← ctx.store database table
  let columns := s.columnsFor schema
  let rows ← s.valuesFor ctx params
  checkWidth table columns rows
  return ⟨store, columns, rows, ← s.handlerFor store params⟩

def run (s : Insert) (ctx : Context) (params : List Value) : Storage × Outcome Affected :=
  match s.target with
  | .derived _ _ => (ctx.storage, .refuse (.insertIntoDerived s.target.text))
  | .table database table _ =>
      match s.prepare ctx params database table with
      | .error e => (ctx.storage, .error e)
      | .ok b =>
          let done := b.store.addAll b.rows b.columns b.handler ()
          (ctx.storage.insert (ctx.tableName database table) done.store,
            done.keys.map fun keys => Dictionary.insert s.target.name (.ofKeys keys) [])

end RelQuery.Insert
