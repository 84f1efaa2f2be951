import RelQuery.Error
import RelQuery.Row

/-! The rows of an evaluated query, read like a table but never written. Row identifiers are row
positions. -/
namespace RelQuery

structure ResultStore where
  columns : List String
  rows : List Row
  deriving DecidableEq, Repr

namespace ResultStore

def new (columns : List String) (rows : List (List Value)) : ResultStore :=
  ⟨columns, rows.mapIdx fun i values => Row.new i values⟩

def keyOf (_ : ResultStore) (r : Row) : Key := [.int (Int64.ofNat r.id)]

def addAll (_ : ResultStore) (_ : List (List Value)) (_ : List String) : Outcome (List Key) :=
  .refuse .readOnly

def deleteAll (_ : ResultStore) (_ : List Key) : Outcome Nat := .refuse .readOnly

def updateAll (_ : ResultStore) (_ : List Row) : Outcome (List Key) := .refuse .readOnly

end ResultStore

end RelQuery
