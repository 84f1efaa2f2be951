import RelQuery.Schema.Catalog
import RelQuery.Store.Table

/-! Storage: the stores of all tables, by name. -/
namespace RelQuery

abbrev Storage := Dictionary TableName TableStore

namespace Storage

def ofCatalog (c : Catalog) : Storage := c.schemas.map fun (name, t) => (name, TableStore.new t)

def store (s : Storage) (name : TableName) : Outcome TableStore :=
  match s.get? name with
  | some t => .ok t
  | none => .error (.schema (.tableNotFound name.database name.table))

/-- Adds an empty store for a table that has none. -/
def create (s : Storage) (database : String) (t : TableSchema) : Outcome Storage :=
  let name : TableName := ⟨database, t.name⟩
  if s.contains name then .error (.schema (.invalid (.repeatedStore database t.name)))
  else .ok (s.insert name (TableStore.new t))

def names (s : Storage) : List TableName := s.map (·.1)

def rowCount (s : Storage) : Nat := s.foldl (fun n t => n + t.2.size) 0

end Storage

end RelQuery
