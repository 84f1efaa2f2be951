import RelQuery.Join.Run
import RelQuery.Mutation.Affected

/-! DELETE. The compositions are read first; then the rows of each target are deleted by key, one target
after another. The targets are those listed, or else every source when USING supplies the join, or
else the first source. -/
namespace RelQuery.Delete

def targetNames (d : Delete) (first : Source) : List String :=
  if !d.targets.isEmpty then d.targets
  else if d.usingClause.isSome then d.sources.map Source.name
  else [first.name]

/-- The join that finds the rows. -/
def startJoin (d : Delete) (ctx : Context) (params : List Value) (first : Source) : Outcome JoinRun :=
  let evaluate := ctx.relation params
  match d.usingClause with
  | some u => JoinRun.start evaluate u.source u.joins d.condition params
  | none =>
      JoinRun.start evaluate first (d.sources.tail.map JoinOf.cross ++ d.joins) d.condition params

def target (r : JoinRun) (name : String) : Outcome OpenSource :=
  match r.source? name with
  | some s => .ok s
  | none => .refuse (.unknownTarget name)

/-- The keys of a target's rows, each once, in the order in which they are first met. -/
def keysOf (storage : Storage) (cs : List Composition) (s : OpenSource) : List Key :=
  Grouping.firsts Key.order (cs.filterMap fun c => (c.row? s.name).map (s.keyOf storage))

/-- The targets with the keys to delete. -/
def collect (d : Delete) (ctx : Context) (params : List Value) :
    Outcome (List (OpenSource × List Key)) := do
  let d ← d.expand ctx.catalog ctx.database
  if d.usingClause.isSome && !d.targets.isEmpty then Outcome.refuse .targetsWithUsing
  else
    match d.sources with
    | [] => .refuse .deleteWithoutSource
    | first :: _ => do
        let run ← d.startJoin ctx params first
        let targets ← (d.targetNames first).mapM (target run)
        let cs ← run.collect.2
        return targets.map fun s => (s, keysOf ctx.storage cs s)

/-- Deletes rows of one target by key. -/
def deleteFrom (storage : Storage) (s : OpenSource) (keys : List Key) : Storage × Outcome Nat :=
  match s.origin with
  | .result rows => (storage, (ResultStore.mk s.columns rows).deleteAll keys)
  | .table name =>
      match storage.store name with
      | .error e => (storage, .error e)
      | .ok t =>
          let (t, count) := t.deleteAll keys
          (storage.insert name t, .ok count)

def deleteAll (storage : Storage) (done : Affected) :
    List (OpenSource × List Key) → Storage × Outcome Affected
  | [] => (storage, .ok done)
  | (s, keys) :: rest =>
      match deleteFrom storage s keys with
      | (storage, .error e) => (storage, .error e)
      | (storage, .ok count) => deleteAll storage (done.insert s.name ⟨count, keys⟩) rest

def run (d : Delete) (ctx : Context) (params : List Value) : Storage × Outcome Affected :=
  match d.collect ctx params with
  | .error e => (ctx.storage, .error e)
  | .ok targets => deleteAll ctx.storage [] targets

end RelQuery.Delete
