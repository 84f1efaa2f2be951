import RelQuery.Join.Staging

/-! A join engine: a join that is described first, started later, and then read one composition at a
time. An engine that was not started has no sources and refuses to be read. -/
namespace RelQuery

structure JoinEngine where
  main : Source
  joins : List Join
  condition : Option Expr
  params : List Value
  run : Option JoinRun

namespace JoinEngine

def new (main : Source) (joins : List Join) (condition : Option Expr) (params : List Value) :
    JoinEngine :=
  ⟨main, joins, condition, params, none⟩

/-- Starts the engine, again if need be. -/
def init (e : JoinEngine) (evaluate : Source → Outcome Relation) : Outcome JoinEngine := do
  return { e with run := some (← JoinRun.start evaluate e.main e.joins e.condition e.params) }

def isFinished (e : JoinEngine) : Bool := e.run.any (·.finished)

/-- Reads a started engine. -/
def read {α : Type} (e : JoinEngine) (f : JoinRun → JoinRun × Outcome α) : JoinEngine × Outcome α :=
  match e.run with
  | none => (e, .error (.invalidOperation .notStarted))
  | some r =>
      let (r, o) := f r
      ({ e with run := some r }, o)

def fetch (e : JoinEngine) : JoinEngine × Outcome (Option Composition) := e.read JoinRun.fetch

def collect (e : JoinEngine) : JoinEngine × Outcome (List Composition) := e.read JoinRun.collect

def sources (e : JoinEngine) : List OpenSource := (e.run.map JoinRun.sources).getD []

def source? (e : JoinEngine) (name : String) : Option OpenSource := e.run.bind (·.source? name)

def emptyComposition (e : JoinEngine) : Composition :=
  (e.run.map JoinRun.emptyComposition).getD .empty

def stage (e : JoinEngine) (name : String) (row : Row) : Outcome JoinEngine :=
  match e.run with
  | none => .error (.schema (.unknownAlias name))
  | some r => do return { e with run := some (← r.stage name row) }

def sync (storage : Storage) (e : JoinEngine) : Storage × JoinEngine × Outcome SyncedKeys :=
  match e.run with
  | none => (storage, e, .ok [])
  | some r =>
      let (storage, r, o) := r.sync storage
      (storage, { e with run := some r }, o)

end JoinEngine

end RelQuery
