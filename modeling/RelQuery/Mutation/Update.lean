import RelQuery.Join.Staging
import RelQuery.Mutation.Affected

/-! UPDATE. Every assignment is evaluated on the composition before any is applied, so assignments never
see each other's results. The changed rows are staged while the compositions are read and written when
all have been read; a source without a row in a composition is left alone. -/
namespace RelQuery.Update

/-- The source and the column of an assignment. -/
structure Place where
  source : String
  column : Nat
  deriving DecidableEq, Repr

def place (target : String) (r : JoinRun) (a : Assignment) : Outcome Place :=
  let name := a.target.table.getD target
  match r.source? name with
  | none => .error (.schema (.unknownAlias name))
  | some s =>
      match s.columns.findIdx? (· == a.target.column) with
      | none => .error (.schema (.columnNotFound name a.target.column))
      | some i => .ok ⟨name, i⟩

/-- Sets a column of the copy of a source's row, which is made on first use. -/
def assign (c : Composition) (rows : List (String × Row)) (p : Place) (v : Value) :
    List (String × Row) :=
  match c.row? p.source with
  | none => rows
  | some row =>
      if rows.any (·.1 == p.source) then
        rows.map fun (name, r) => if name == p.source then (name, (r.set p.column v).1) else (name, r)
      else rows ++ [(p.source, (row.set p.column v).1)]

/-- The rows that a composition changes, by source. -/
def changed (set : List Assignment) (places : List Place) (params : List Value) (c : Composition) :
    Outcome (List (String × Row)) := do
  let values ← Expr.evalList (set.map (·.value)) (.ofRow c params)
  return (places.zip values).foldl (fun rows (p, v) => assign c rows p v) []

/-- A join with the changed rows staged on its sources. -/
def stageAll (u : Update) (ctx : Context) (params : List Value) : Outcome JoinRun := do
  let u ← u.expand ctx.catalog ctx.database
  let run ← JoinRun.start (ctx.relation params) u.target u.joins u.condition params
  let places ← u.set.mapM (place u.target.name run)
  let (run, rows) := run.fold (fun (rows : Array (String × Row)) c => do
    return rows ++ (← changed u.set places params c)) #[]
  (← rows).toList.foldlM (fun run (name, row) => run.stage name row) run

/-- The target is reported even when none of its rows was written. -/
def report (target : String) (keys : SyncedKeys) : Affected :=
  (keys.filter fun (name, keys) => !keys.isEmpty || name == target).map fun (name, keys) =>
    (name, .ofKeys keys)

def run (u : Update) (ctx : Context) (params : List Value) : Storage × Outcome Affected :=
  match u.stageAll ctx params with
  | .error e => (ctx.storage, .error e)
  | .ok r =>
      let (storage, _, keys) := r.sync ctx.storage
      (storage, keys.map (report u.target.name))

end RelQuery.Update
