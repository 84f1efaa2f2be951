import RelQuery.Proofs.Join.Equated
import RelQuery.Proofs.Path.Forward
import RelQuery.Proofs.Store.Storage

/-! The row that a foreign key refers to. It is the one whose key equals the value of the column; the unique
index of the primary key makes it the only one. A path leads from a row to the row that each foreign key
refers to, and on to the value of its last column. -/
namespace RelQuery

namespace Storage

/-- Storage with a table, made by calls, for each table of a catalog. -/
structure Fills (storage : Storage) (c : Catalog) : Prop where
  schemas : ∀ name, (storage.get? name).map (·.schema) = c.schemas.get? name
  reachable : storage.Reachable

variable {storage : Storage} {c : Catalog} {name : TableName} {t t' : TableStore}

theorem fillsNew (c : Catalog) : (ofCatalog c).Fills c := by
  refine ⟨fun name => ?_, fun name t there => ?_⟩
  · rw [ofCatalog, Dictionary.getMap, Option.map_map]
    exact Option.map_id'
  · rw [ofCatalog, Dictionary.getMap] at there
    obtain ⟨schema, _, rfl⟩ := Option.map_eq_some_iff.mp there
    exact .new

theorem fillsCall (fills : storage.Fills c) (there : storage.get? name = some t)
    (called : TableStore.Reachable t.schema t → TableStore.Reachable t.schema t') :
    Fills (storage.insert name t') c := by
  have reached := called (fills.reachable name t there)
  have same : t'.schema = t.schema := TableStore.reachableSchema reached
  refine ⟨fun name' => ?_, fun name' u found => ?_⟩
  · rw [← fills.schemas, Dictionary.getInsert]
    split
    · rename_i here
      rw [eq_of_beq here, there, Option.map_some, Option.map_some, same]
    · rfl
  · rw [Dictionary.getInsert] at found
    split at found
    · cases found
      rwa [same]
    · exact fills.reachable name' u found

def fill (storage : Storage) (name : TableName) (rows : List (List Value)) : Storage :=
  match storage.get? name with
  | some t => storage.insert name (t.addAll rows t.columns none ()).store
  | none => storage

theorem fillsRows (fills : storage.Fills c) (name : TableName) (rows : List (List Value)) :
    (storage.fill name rows).Fills c := by
  unfold fill
  split
  · rename_i there
    exact fillsCall fills there fun before => .addAll before rows _ none ()
  · exact fills

end Storage

namespace SubRow

variable {columns : List String} {r : Row} {hidden hidden' : Bool} {column : String} {v : Value}

theorem readHidden (columns : List String) (row : Option Row) (hidden hidden' : Bool)
    (column : String) : (SubRow.mk columns row hidden).read? column =
      (SubRow.mk columns row hidden').read? column := rfl

theorem readEmpty (read : (SubRow.mk columns none hidden).read? column = some v) : v = .null := by
  obtain ⟨i, _, rfl⟩ := Option.map_eq_some_iff.mp read
  rfl

theorem readRow (read : (SubRow.mk columns (some r) hidden).read? column = some v) :
    ∃ i, columns.findIdx? (· == column) = some i ∧ v = Row.valueAt r.values i := by
  obtain ⟨i, found, rfl⟩ := Option.map_eq_some_iff.mp read
  exact ⟨i, found, rfl⟩

end SubRow

namespace TableStore

variable {t : TableStore} {key : String} {r r' : Row} {u v : Value}

theorem rowsNodup (consistent : Consistent t) : t.rows.Nodup := by
  rw [rows, List.Nodup, List.pairwise_map]
  refine Std.ExtTreeMap.distinct_keys_toList.imp_of_mem fun {a b} left right apart same => ?_
  have own {entry : Nat × Row} (member : entry ∈ t.rowsById.toList) : entry.2.id = entry.1 :=
    (consistent.ids _ _ (Std.ExtTreeMap.mem_toList_iff_getElem?_eq_some.mp member)).1
  rw [← own left, ← own right, same] at apart
  exact apart Std.ReflCmp.compare_self

/-- Two rows of a table that agree on its key column are the same. -/
theorem keyedOnce (consistent : Consistent t) (single : t.schema.singlePrimaryKey = .ok key)
    (stored : r ∈ t.rows) (stored' : r' ∈ t.rows)
    (read : (SubRow.mk t.columns (some r) false).read? key = some u)
    (read' : (SubRow.mk t.columns (some r') false).read? key = some v)
    (same : u.agrees v = true) : r = r' := by
  obtain ⟨i, place, rfl⟩ := SubRow.readRow read
  obtain ⟨i', place', rfl⟩ := SubRow.readRow read'
  cases place.symm.trans place'
  obtain ⟨present, _, equal⟩ := Value.agreesIff.mp same
  have own : t.schema.primaryKeyIndices = [i] := by
    have keys : t.schema.primaryKey = [key] := by
      unfold TableSchema.singlePrimaryKey at single
      split at single
      · cases single
      · rename_i listed
        cases single
        exact listed
      · cases single
    have found : t.schema.index? key = some i := by
      rw [← place, columns, TableSchema.columnNames, List.findIdx?_map]
      rfl
    rw [TableSchema.primaryKeyIndices, keys, TableSchema.indices, List.filterMap_cons, found]
    rfl
  -- The index of the primary key has this column alone.
  have primary : UniqueIndex.new primaryKeyName [i] ∈ t.indexes.map UniqueIndex.clear := by
    rw [consistent.shape]
    simp [new, own]
  obtain ⟨ix, listed, cleared⟩ := List.mem_map.mp primary
  have columns : ix.columns = [i] := congrArg UniqueIndex.columns cleared
  have keyOf (r : Row) : ix.key r.values = [Row.valueAt r.values i] := by
    rw [UniqueIndex.key, Row.key, columns, List.map_singleton]
  have equal' : Key.order (ix.key r.values) (ix.key r'.values) = .eq := by
    rw [keyOf, keyOf, Key.order, List.compareLex_cons_cons, equal]
    rfl
  have ids : r.id = r'.id := UniqueIndex.coversOnce (consistent.covered ix listed)
    ((memRows consistent).mp stored) ((memRows consistent).mp stored')
    (by rw [keyOf]; simpa [Key.hasNull] using present) equal'
  have there := (memRows consistent).mp stored
  rw [ids] at there
  exact Option.some.inj (there.symm.trans ((memRows consistent).mp stored'))

end TableStore

/-- Foreign keys from a table on, and last a column of the table that they lead to. -/
inductive Catalog.Leads (c : Catalog) (database : String) : String → List String → Prop where
  | column {table column : String} {schema : TableSchema}
      (found : c.lookup database table = .ok schema) (own : column ∈ schema.columnNames) :
      Leads c database table [column]
  | step {table field target key : String} {names : List String}
      (edge : c.edge database table field = .ok (target, key)) (more : Leads c database target names) :
      Leads c database table (field :: names)

namespace Context

def columnsOf (ctx : Context) (database table : String) : List String :=
  match ctx.catalog.lookup database table with
  | .ok schema => schema.columnNames
  | .error _ => []

def rowsOf (ctx : Context) (database table : String) : List Row :=
  match ctx.storage.get? ⟨database, table⟩ with
  | some t => t.rows
  | none => []

/-- The value of a column in a row of a table, NULL where there is no row. -/
def cell (ctx : Context) (database table : String) (row : Option Row) (column : String) : Value :=
  ((SubRow.mk (ctx.columnsOf database table) row false).read? column).getD .null

/-- The row of a table whose key column equals a value. -/
def referred (ctx : Context) (database table key : String) (v : Value) : Option Row :=
  (ctx.rowsOf database table).find? fun r => (ctx.cell database table (some r) key).agrees v

/-- What a path leads to from a row of a table: the value of its last column in the row that is reached
by following each foreign key to the row with the equal key, or NULL where there is no such row. -/
def dereference (ctx : Context) (database : String) : String → Option Row → List String → Value
  | table, row, [column] => ctx.cell database table row column
  | table, row, field :: rest =>
      match ctx.catalog.edge database table field with
      | .ok (target, key) =>
          ctx.dereference database target
            (ctx.referred database target key (ctx.cell database table row field)) rest
      | .error _ => .null
  | _, _, [] => .null

/-- What a path leads to when each foreign key is followed through a column with a name of its own. Where the
name is that of the key column, the key is read in the place of what stands behind it. -/
def delivered (ctx : Context) (database : String) :
    String → Option Row → List String → List String → Value
  | table, row, field :: rest, column :: columns =>
      match ctx.catalog.edge database table field with
      | .ok (target, key) =>
          let next := ctx.referred database target key (ctx.cell database table row field)
          if column = key then ctx.cell database target next key
          else ctx.delivered database target next rest columns
      | .error _ => .null
  | table, row, column :: _, [] => ctx.cell database table row column
  | _, _, [], _ => .null

variable {ctx : Context} {database table key : String} {t : TableStore} {v : Value} {r : Row}

theorem cellNone (ctx : Context) (database table column : String) :
    ctx.cell database table none column = .null := by
  unfold cell
  cases read : (SubRow.mk (ctx.columnsOf database table) none false).read? column with
  | none => rfl
  | some v => exact SubRow.readEmpty read

theorem referredNull (ctx : Context) (database table key : String) :
    ctx.referred database table key .null = none := by
  refine List.find?_eq_none.mpr fun r _ => ?_
  simp [Value.agrees, Value.isNull]

/-- A path from no row leads to NULL. -/
theorem dereferenceNone (ctx : Context) (database table : String) (names : List String) :
    ctx.dereference database table none names = .null := by
  induction names generalizing table with
  | nil => rfl
  | cons field rest ih =>
      cases rest with
      | nil => exact cellNone ctx database table field
      | cons next rest =>
          rw [dereference]
          · split
            · rw [cellNone, referredNull]
              exact ih _
            · rfl
          · simp

theorem deliveredNone (ctx : Context) (database table : String) (names columns : List String) :
    ctx.delivered database table none names columns = .null := by
  induction names generalizing table columns with
  | nil => rfl
  | cons field rest ih =>
      cases columns with
      | nil => exact cellNone ctx database table field
      | cons column columns =>
          rw [delivered]
          split
          · simp only [cellNone, referredNull, ih, ite_self]
          · rfl

section
variable (fills : ctx.storage.Fills ctx.catalog) (stored : ctx.storage.get? ⟨database, table⟩ = some t)
include fills stored

theorem schemaStored : ctx.catalog.lookup database table = .ok t.schema := by
  have schema := fills.schemas ⟨database, table⟩
  rw [stored, Option.map_some] at schema
  rw [Catalog.lookup, ← schema]

theorem columnsStored : ctx.columnsOf database table = t.columns := by
  rw [columnsOf, schemaStored fills stored]
  rfl

omit fills in
theorem rowsStored : ctx.rowsOf database table = t.rows := by
  rw [rowsOf, stored]

theorem cellRead {row : Option Row} {hidden : Bool} {column : String}
    (read : (SubRow.mk t.columns row hidden).read? column = some v) :
    ctx.cell database table row column = v := by
  rw [cell, columnsStored fills stored, SubRow.readHidden _ _ false hidden, read]
  rfl

variable (single : t.schema.singlePrimaryKey = .ok key)

theorem agreesRead {u : Value} (same : (ctx.cell database table (some r) key).agrees u = true) :
    (SubRow.mk t.columns (some r) false).read? key = some (ctx.cell database table (some r) key) := by
  rw [cell, columnsStored fills stored] at same ⊢
  cases read : (SubRow.mk t.columns (some r) false).read? key with
  | none =>
      rw [read] at same
      cases (Value.agreesIff.mp same).1
  | some v => rfl

include single

theorem referredRow (member : r ∈ t.rows)
    (same : (ctx.cell database table (some r) key).agrees v = true) :
    ctx.referred database table key v = some r := by
  have consistent := TableStore.reachableConsistent (fills.reachable _ _ stored)
  cases found : ctx.referred database table key v with
  | none =>
      have none := List.find?_eq_none.mp found r (rowsStored stored ▸ member)
      exact absurd same none
  | some r' =>
      have same' := List.find?_some found
      have member' : r' ∈ t.rows := rowsStored stored ▸ List.mem_of_find?_eq_some found
      rw [TableStore.keyedOnce consistent single member' member (agreesRead fills stored same')
        (agreesRead fills stored same) (Value.agreesBoth same' same)]

end

theorem referredNone (stored : ctx.storage.get? ⟨database, table⟩ = some t)
    (missing : ∀ r ∈ t.rows, (ctx.cell database table (some r) key).agrees v = false) :
    ctx.referred database table key v = none := by
  refine List.find?_eq_none.mpr fun r member => ?_
  rw [rowsStored stored] at member
  simpa using missing r member

end Context

end RelQuery
