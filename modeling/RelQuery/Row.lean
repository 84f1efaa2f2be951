import RelQuery.Value.Basic

/-! Rows: the values of a table's columns together with the identifier and the version that the
table gave them. -/
namespace RelQuery

/-- The identifier of rows that no table holds. -/
def dummyId : Nat := UInt64.size - 1

structure Row where
  id : Nat
  version : Nat
  values : List Value
  deriving DecidableEq, Repr, Inhabited

namespace Row

def new (id : Nat) (values : List Value) : Row := ⟨id, 1, values⟩

def dummy (values : List Value) : Row := new dummyId values

def isDummy (r : Row) : Bool := r.id == dummyId

def get? (r : Row) (i : Nat) : Option Value := r.values[i]?

/-- Replaces the value of a column, and tells whether the row has that column. -/
def set (r : Row) (i : Nat) (v : Value) : Row × Bool :=
  ({ r with values := r.values.set i v }, i < r.values.length)

def valueAt (values : List Value) (i : Nat) : Value := values[i]?.getD .null

def key (values : List Value) (columns : List Nat) : Key := columns.map (valueAt values)

def nextVersion (r : Row) : Row := { r with version := r.version + 1 }

/-- Equality of rows ignores versions. -/
def same (a b : Row) : Bool := a.id == b.id && Key.same a.values b.values

end Row

end RelQuery
