import RelQuery.Composition
import RelQuery.Statement.Basic
import RelQuery.Store.Cursor
import RelQuery.Store.Result
import RelQuery.Store.Storage

/-! The sources of a running join: where the rows of each came from, and a cursor over a snapshot of
them. Only rows that came from a table can be written back. -/
namespace RelQuery

inductive Origin where
  | table (name : TableName)
  | result (rows : List Row)
  deriving DecidableEq, Repr

/-- The rows of an evaluated source. -/
structure Relation where
  columns : List String
  rows : List Row
  origin : Origin

namespace Relation

def ofTable (name : TableName) (s : TableStore) : Relation := ⟨s.columns, s.rows, .table name⟩

def ofResult (s : ResultStore) : Relation := ⟨s.columns, s.rows, .result s.rows⟩

end Relation

structure OpenSource where
  name : String
  columns : List String
  origin : Origin
  hidden : Bool
  cursor : Cursor

namespace OpenSource

def start (name : String) (hidden : Bool) (r : Relation) : OpenSource :=
  ⟨name, r.columns, r.origin, hidden, Cursor.start r.rows⟩

def subRow (s : OpenSource) (row : Option Row) : SubRow := ⟨s.columns, row, s.hidden⟩

def pushInto (s : OpenSource) (c : Composition) (row : Option Row) : Composition :=
  c.push s.name (s.subRow row)

/-- The rows that the source has now, which later writes to its table may have changed. -/
def currentRows (storage : Storage) (s : OpenSource) : List Row :=
  match s.origin with
  | .table name => ((storage.get? name).map (·.rows)).getD []
  | .result rows => rows

def keyOf (storage : Storage) (s : OpenSource) (r : Row) : Key :=
  match s.origin with
  | .table name => ((storage.get? name).map (·.keyOf r)).getD []
  | .result rows => (ResultStore.mk s.columns rows).keyOf r

end OpenSource

structure JoinSource where
  source : OpenSource
  kind : JoinKind
  condition : Option JoinCondition

end RelQuery
