import RelQuery.Schema.Table

/-! Catalogs: the schemas of the tables of several databases, one of which is the default. -/
namespace RelQuery

/-- The name of a table within its database. -/
structure TableName where
  database : String
  table : String
  deriving DecidableEq, Repr

instance : Ord TableName :=
  ⟨fun a b => (compare a.database b.database).then (compare a.table b.table)⟩

structure Catalog where
  defaultDatabase : String
  schemas : Dictionary TableName TableSchema
  deriving DecidableEq, Repr

namespace Catalog

def new (defaultDatabase : String) : Catalog := ⟨defaultDatabase, []⟩

def register (c : Catalog) (database : String) (t : TableSchema) : Outcome Catalog :=
  let name : TableName := ⟨database, t.name⟩
  if c.schemas.contains name then
    .error (.schema (.invalid (.repeatedTable database t.name)))
  else .ok { c with schemas := c.schemas.insert name t }

def lookup (c : Catalog) (database table : String) : Outcome TableSchema :=
  match c.schemas.get? ⟨database, table⟩ with
  | some t => .ok t
  | none => .error (.schema (.tableNotFound database table))

/-- The tables of a database, by name. -/
def tables (c : Catalog) (database : String) : List TableSchema :=
  (c.schemas.filter (·.1.database == database)).map (·.2)

def names (c : Catalog) : List TableName := c.schemas.map (·.1)

end Catalog

end RelQuery
