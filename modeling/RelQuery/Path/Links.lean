import RelQuery.Path.Binding
import RelQuery.Statement.Basic

/-! The joins that the arrow references of a statement need. References that start from the same source
along the same edge share one join, and within it references with the same selection share one
column. Each join reads its target through a query of its own, under a name that no source has. -/
namespace RelQuery

/-- What tells one link from another. -/
structure LinkKey where
  base : String
  baseKey : String
  targetKey : String
  target : String
  deriving DecidableEq, Repr

structure Link where
  key : LinkKey
  database : Option String
  name : String
  /-- What is selected, with the column that it is selected as. -/
  selects : List (String × String)
  deriving DecidableEq, Repr

structure Links where
  entries : List Link
  used : List String
  lastNumber : Nat
  deriving DecidableEq, Repr

namespace Link

/-- The column of a selection, which is added if it is new. -/
def attach (l : Link) (select : String) : Link × String :=
  match l.selects.lookup select with
  | some column => (l, column)
  | none =>
      let column := "c" ++ toString (l.selects.length + 1)
      ({ l with selects := l.selects ++ [(select, column)] }, column)

def columnOf (name : String) (column : String) : Expr := .column ⟨some name, column⟩

def selectField (s : String × String) : Field :=
  .expr (if Path.isPath s.1 then .path none s.1 else .column ⟨none, s.1⟩) (some s.2)

def query (l : Link) : Select where
  distinct := false
  fields := .expr (.column ⟨none, l.key.targetKey⟩) none :: l.selects.map selectField
  sources := [.table l.database l.key.target none]
  joins := []
  condition := none
  groupBy := []
  having := none
  windows := []
  orderBy := []
  limit := none
  offset := none

def toJoin (l : Link) : Join where
  kind := .left
  source := .derived l.query l.name
  condition := some (.condition
    (.binary .eq (columnOf l.name l.key.targetKey) (columnOf l.key.base l.key.baseKey)))
  hidden := true

end Link

namespace Links

def new (used : List String) : Links := ⟨[], used, 0⟩

def nameOf (n : Nat) : String := "j" ++ toString n

/-- The next number whose name is free. Among one more numbers than there are names in use, one is. -/
def freshNumber (used : List String) (last : Nat) : Nat :=
  let numbers := (List.range (used.length + 1)).map (last + 1 + ·)
  (numbers.find? fun n => !used.contains (nameOf n)).getD (last + 1)

/-- Attaches a selection to the link of a key, if there is one. -/
def attachTo (key : LinkKey) (select : String) : List Link → Option (List Link × ColumnRef)
  | [] => none
  | l :: ls =>
      if l.key = key then
        let (l', column) := l.attach select
        some (l' :: ls, ⟨some l.name, column⟩)
      else (attachTo key select ls).map fun (ls', ref) => (l :: ls', ref)

/-- The column that serves a binding, through a link that is made on first use. -/
def attach (ls : Links) (base : String) (database : Option String) (b : Binding) :
    Links × ColumnRef :=
  let key : LinkKey := ⟨base, b.base.actingKey, b.target.actingKey, b.target.table⟩
  match attachTo key b.target.select ls.entries with
  | some (entries, ref) => ({ ls with entries := entries }, ref)
  | none =>
      let number := freshNumber ls.used ls.lastNumber
      let name := nameOf number
      let (link, column) := Link.attach ⟨key, database, name, []⟩ b.target.select
      (⟨ls.entries ++ [link], name :: ls.used, number⟩, ⟨some name, column⟩)

def toJoins (ls : Links) : List Join := ls.entries.map Link.toJoin

end Links

end RelQuery
