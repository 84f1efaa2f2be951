import RelQuery.Schema.Table
import RelQuery.Store.Index

/-! The rows of one table, with a unique index for the primary key and for each unique key. Scans list
the rows in rising order of their identifiers. A batch of additions is all or nothing: every write is
logged, and a failure takes the logged writes back, newest first. A batch of replacements keeps the
writes before the one that failed. -/
namespace RelQuery

structure TableStore where
  schema : TableSchema
  /-- The rows by identifier. -/
  rowsById : Std.ExtTreeMap Nat Row
  /-- The primary key's index, when the table has one, and then those of the unique keys by name. -/
  indexes : List UniqueIndex
  nextRowId : Nat
  nextAuto : Int64

/-- What becomes of a row whose key is taken. -/
inductive DuplicateAction where
  /-- The row that is there stays and the new one is dropped. -/
  | ignore
  /-- The values of the row that is there are replaced. -/
  | update (values : List Value)
  deriving DecidableEq, Repr

/-- Decides, from the row that is there and the new one, with a state carried from call to call. -/
abbrev DuplicateHandler (σ : Type) := Row → Row → σ → Outcome DuplicateAction × σ

/-- A write to take back: the addition of a row, or the replacement of the row given. -/
inductive Undo where
  | added (id : Nat)
  | replaced (old : Row)
  deriving DecidableEq, Repr

namespace TableStore

def primaryKeyName : String := "primary_key"

def new (schema : TableSchema) : TableStore :=
  let primary := schema.primaryKeyIndices
  let unique := schema.uniqueKeys.map fun (name, columns) => UniqueIndex.new name (schema.indices columns)
  { schema := schema
    rowsById := ∅
    indexes := if primary.isEmpty then unique else UniqueIndex.new primaryKeyName primary :: unique
    nextRowId := 0
    nextAuto := 1 }

def columns (s : TableStore) : List String := s.schema.columnNames

/-- The rows as a scan lists them. -/
def rows (s : TableStore) : List Row := s.rowsById.toList.map (·.2)

def size (s : TableStore) : Nat := s.rowsById.size

def primaryIndex? (s : TableStore) : Option UniqueIndex :=
  if s.schema.primaryKeyIndices.isEmpty then none else s.indexes.head?

/-- The column that the table fills by itself. -/
def autoColumn? (s : TableStore) : Option Nat :=
  if s.schema.autoIncrement then s.schema.primaryKeyIndices.head? else none

def row? (s : TableStore) (id : Nat) : Option Row := s.rowsById[id]?

/-- The key by which a row is deleted: that of the primary key, or else its identifier. -/
def keyOf (s : TableStore) (r : Row) : Key :=
  match s.primaryIndex? with
  | some ix => ix.key r.values
  | none => [.int (Int64.ofNat r.id)]

def findByKey (s : TableStore) (key : Key) : Option Nat :=
  match s.primaryIndex? with
  | some ix => ix.find? key
  | none =>
      match key with
      | [.int n] =>
          let id := n.toInt.toNat
          if 0 ≤ n.toInt && (s.row? id).isSome then some id else none
      | _ => none

def rowByKey? (s : TableStore) (key : Key) : Option Row := (s.findByKey key).bind s.row?

/-- The first index on which some values collide, with the row they collide with. -/
def conflict? (s : TableStore) (values : List Value) (exempt : Option Nat) :
    Option (UniqueIndex × Nat) :=
  s.indexes.findSome? fun ix => (ix.conflict? values exempt).map (ix, ·)

def uniqueError (ix : UniqueIndex) (values : List Value) : Error :=
  .uniqueConstraint ix.name (ix.key values)

def checkNotNull (s : TableStore) (values : List Value) : Outcome Unit :=
  match (values.zip s.schema.columns).find? fun (v, c) => v.isNull && !c.nullable with
  | some (_, c) => .refuse (.notNull s.schema.name c.name)
  | none => .ok ()

/-- Empties the table. Its counters go on from where they are. -/
def clear (s : TableStore) : TableStore :=
  { s with rowsById := ∅, indexes := s.indexes.map UniqueIndex.clear }

def successor (n : Int64) : Int64 := if n = Int64.maxValue then n else n + 1

/-- Keeps the counter above a key that was given. -/
def reserve (s : TableStore) (n : Int64) : TableStore :=
  { s with nextAuto := if s.nextAuto < successor n then successor n else s.nextAuto }

/-- Fills the automatic column, or keeps the counter above the value that it was given. -/
def assignAuto (s : TableStore) (values : List Value) : Outcome (TableStore × List Value) :=
  match s.autoColumn? with
  | none => .ok (s, values)
  | some column =>
      match Row.valueAt values column with
      | .null => .ok ({ s with nextAuto := s.nextAuto + 1 }, values.set column (.int s.nextAuto))
      | .int n | .dateTime n => .ok (s.reserve n, values)
      | other => .error (.typeMismatch "Int64" other)

/-- The value given for a column: the last one, where the column is listed repeatedly. -/
def given? (positions : List Nat) (values : List Value) (column : Nat) : Option Value :=
  ((positions.zip values).reverse.find? (·.1 == column)).map (·.2)

/-- A row's values in column order, with defaults for the columns that are not listed. -/
def layout (s : TableStore) (positions : List Nat) (values : List Value) : List Value :=
  s.schema.columns.mapIdx fun i c =>
    ((given? positions values i).or c.default).getD .null

/-- Adds a row that collides with none. -/
def insertRow (s : TableStore) (values : List Value) : TableStore × Row :=
  let r := Row.new s.nextRowId values
  ({ s with
      rowsById := s.rowsById.insert r.id r
      indexes := s.indexes.map (·.insert values r.id)
      nextRowId := s.nextRowId + 1 }, r)

/-- Stores values in the place of a row, without any check. -/
def overwrite (s : TableStore) (old new : Row) : TableStore :=
  { s with
    rowsById := s.rowsById.insert new.id new
    indexes := s.indexes.map fun ix => (ix.erase old.values old.id).insert new.values old.id }

/-- A replacement's version exceeds the version of the row it replaces. -/
def supersede (old new : Row) : Row := { new with version := max new.version (old.version + 1) }

def reserveReplaced (s : TableStore) (values : List Value) : TableStore :=
  match s.autoColumn? with
  | none => s
  | some column =>
      match values[column]? with
      | some (.int n) => s.reserve n
      | _ => s

/-- Replaces the row with the identifier of the one given. Answers the new row and the old one. -/
def replace (s : TableStore) (r : Row) : Outcome (TableStore × Row × Row) :=
  match s.row? r.id with
  | none => .error (.invalidOperation (.missingRow r.id))
  | some old => do
      s.checkNotNull r.values
      match s.conflict? r.values (some r.id) with
      | some (ix, _) => .error (uniqueError ix r.values)
      | none =>
          let new := supersede old r
          return ((s.overwrite old new).reserveReplaced new.values, new, old)

/-- The state of a batch of additions in progress. -/
structure Progress (σ : Type) where
  store : TableStore
  handlerState : σ
  /-- The writes of the batch, newest first. -/
  undo : List Undo
  keys : Array Key

namespace Progress

variable {σ : Type}

def added (p : Progress σ) (values : List Value) : Progress σ :=
  let (store, r) := p.store.insertRow values
  { p with store := store, undo := .added r.id :: p.undo, keys := p.keys.push (store.keyOf r) }

/-- Applies the decision on a row whose key is taken. -/
def settled (p : Progress σ) (id : Nat) : DuplicateAction → Except (Error × Progress σ) (Progress σ)
  | .ignore => .ok p
  | .update values =>
      match p.store.replace (.new id values) with
      | .error e => .error (e, p)
      | .ok (store, new, old) =>
          .ok { p with store := store, undo := .replaced old :: p.undo,
                       keys := p.keys.push (store.keyOf new) }

/-- Adds values that are laid out and complete. -/
def stored (p : Progress σ) (handler : Option (DuplicateHandler σ)) (values : List Value) :
    Except (Error × Progress σ) (Progress σ) :=
  match p.store.conflict? values none with
  | none => .ok (p.added values)
  | some (ix, id) =>
      match handler, p.store.row? id with
      | none, _ => .error (uniqueError ix values, p)
      | some _, none => .error (.invalidOperation .danglingEntry, p)
      | some decide, some existing =>
          let (action, state) := decide existing (.dummy values) p.handlerState
          let p := { p with handlerState := state }
          match action with
          | .error e => .error (e, p)
          | .ok action => p.settled id action

def addRow (positions : List Nat) (handler : Option (DuplicateHandler σ)) (p : Progress σ)
    (given : List Value) : Except (Error × Progress σ) (Progress σ) :=
  if given.length ≠ positions.length then
    .error (.validation (.batchWidth positions.length p.store.schema.name given.length), p)
  else
    match p.store.assignAuto (p.store.layout positions given) with
    | .error e => .error (e, p)
    | .ok (store, values) =>
        let p := { p with store := store }
        match store.checkNotNull values with
        | .error e => .error (e, p)
        | .ok () => p.stored handler values

end Progress

/-- Takes a write back. -/
def revert (s : TableStore) : Undo → TableStore
  | .added id =>
      match s.row? id with
      | none => s
      | some r =>
          { s with rowsById := s.rowsById.erase id, indexes := s.indexes.map (·.erase r.values id) }
  | .replaced old =>
      match s.row? old.id with
      | none => { s with rowsById := s.rowsById.insert old.id old }
      | some current => s.overwrite current old

/-- Takes the writes of a failed batch back and resets the counters. -/
def rollBack (s : TableStore) (undo : List Undo) (nextRowId : Nat) (nextAuto : Int64) : TableStore :=
  { undo.foldl revert s with nextRowId := nextRowId, nextAuto := nextAuto }

def position (s : TableStore) (name : String) : Outcome Nat :=
  match s.schema.index? name with
  | some i => .ok i
  | none => .error (.schema (.columnNotFound s.schema.name name))

/-- What a batch of additions leaves: the store, the handler's state, and the key of each row that
was written, or the failure. -/
structure Added (σ : Type) where
  store : TableStore
  handlerState : σ
  keys : Outcome (List Key)

/-- Adds rows whose values are given for the listed columns. -/
def addAll {σ : Type} (s : TableStore) (rows : List (List Value)) (columns : List String)
    (handler : Option (DuplicateHandler σ)) (state : σ) : Added σ :=
  match columns.mapM s.position with
  | .error e => ⟨s, state, .error e⟩
  | .ok positions =>
      match rows.foldlM (Progress.addRow positions handler) ⟨s, state, [], #[]⟩ with
      | .ok p => ⟨p.store, p.handlerState, .ok p.keys.toList⟩
      | .error (e, p) => ⟨p.store.rollBack p.undo s.nextRowId s.nextAuto, p.handlerState, .error e⟩

/-- Deletes the row of a key, if there is one. -/
def delete (s : TableStore) (key : Key) : Option TableStore := do
  let id ← s.findByKey key
  let r ← s.row? id
  return { s with rowsById := s.rowsById.erase id, indexes := s.indexes.map (·.erase r.values id) }

/-- Deletes the rows of some keys and counts them. -/
def deleteAll (s : TableStore) (keys : List Key) : TableStore × Nat :=
  keys.foldl (fun (s, n) key => match s.delete key with
    | some s' => (s', n + 1)
    | none => (s, n)) (s, 0)

def updateRow (s : TableStore) (r : Row) : Outcome (TableStore × Key) :=
  if r.values.length ≠ s.columns.length then
    .refuse (.rowWidth r.values.length s.columns.length s.schema.name)
  else do
    let (s', new, _) ← s.replace r
    return (s', s'.keyOf new)

/-- Replaces rows by identifier, in order, up to the first failure. -/
def updateAll (s : TableStore) : List Row → TableStore × Outcome (List Key)
  | [] => (s, .ok [])
  | r :: rs =>
      match s.updateRow r with
      | .error e => (s, .error e)
      | .ok (s', key) =>
          let (final, keys) := updateAll s' rs
          (final, keys.map (key :: ·))

/-- A summary for diagnostics. -/
def summary (s : TableStore) : String :=
  "MemoryStore \x7b table: " ++ Text.quoted s.schema.name ++ ", rows: " ++ toString s.size ++
    " \x7d"

end TableStore

end RelQuery
