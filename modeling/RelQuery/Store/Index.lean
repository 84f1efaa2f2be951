import RelQuery.Row
import RelQuery.Value.Order

/-! Unique indexes: which row holds each key of some columns. Keys with a NULL are never held, so
they never collide. -/
namespace RelQuery

structure UniqueIndex where
  name : String
  columns : List Nat
  /-- The identifiers of the rows that hold a key. -/
  holders : Std.ExtTreeMap Key Nat Key.order

namespace UniqueIndex

def new (name : String) (columns : List Nat) : UniqueIndex := ⟨name, columns, ∅⟩

def key (ix : UniqueIndex) (values : List Value) : Key := Row.key values ix.columns

/-- The row that holds a key. -/
def find? (ix : UniqueIndex) (key : Key) : Option Nat := ix.holders[key]?

/-- The row, other than an excepted one, that holds the key of some values. -/
def conflict? (ix : UniqueIndex) (values : List Value) (exempt : Option Nat) : Option Nat :=
  let key := ix.key values
  if key.hasNull then none else (ix.find? key).filter (some · ≠ exempt)

/-- Gives the key of some values to a row. A row that held the key loses it. -/
def insert (ix : UniqueIndex) (values : List Value) (id : Nat) : UniqueIndex :=
  let key := ix.key values
  if key.hasNull then ix else { ix with holders := ix.holders.insert key id }

/-- Takes the key of some values from a row, if the row holds it. -/
def erase (ix : UniqueIndex) (values : List Value) (id : Nat) : UniqueIndex :=
  let key := ix.key values
  if ix.find? key = some id then { ix with holders := ix.holders.erase key } else ix

def clear (ix : UniqueIndex) : UniqueIndex := { ix with holders := ∅ }

end UniqueIndex

end RelQuery
