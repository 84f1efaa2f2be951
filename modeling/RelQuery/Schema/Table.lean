import RelQuery.Dictionary
import RelQuery.Error

/-! Table schemas and the drafts they are built from. Each step of a draft checks names and columns as
they come; `build` checks what depends on all steps and numbers the columns. -/
namespace RelQuery

structure Column where
  name : String
  dataType : DataType
  nullable : Bool
  default : Option Value
  /-- The table that a foreign key refers to. -/
  references : Option String
  index : Nat
  deriving DecidableEq, Repr

namespace Column

def new (name : String) (dataType : DataType) : Column := ⟨name, dataType, true, none, none, 0⟩

end Column

structure TableSchema where
  name : String
  columns : List Column
  primaryKey : List String
  uniqueKeys : Dictionary String (List String)
  autoIncrement : Bool
  engine : String
  deriving DecidableEq, Repr

namespace TableSchema

def columnNames (t : TableSchema) : List String := t.columns.map (·.name)

def column? (t : TableSchema) (name : String) : Option Column := t.columns.find? (·.name == name)

def index? (t : TableSchema) (name : String) : Option Nat := t.columns.findIdx? (·.name == name)

def indices (t : TableSchema) (names : List String) : List Nat := names.filterMap t.index?

def primaryKeyIndices (t : TableSchema) : List Nat := t.indices t.primaryKey

/-- The key column of a table that foreign keys can refer to. -/
def singlePrimaryKey (t : TableSchema) : Outcome String :=
  match t.primaryKey with
  | [] => .error (.schema (.primaryKeyNotFound t.name))
  | [column] => .ok column
  | _ => .error (.schema (.compositePrimaryKey t.name))

/-- The table that a column refers to. -/
def foreignKey (t : TableSchema) (column : String) : Outcome String :=
  match t.column? column with
  | none => .error (.schema (.columnNotFound t.name column))
  | some c =>
      match c.references with
      | some table => .ok table
      | none => .error (.schema (.foreignKeyNotFound t.name column))

end TableSchema

structure TableDraft where
  name : String
  columns : List Column
  primaryKey : List String
  uniqueKeys : Dictionary String (List String)
  autoIncrement : Bool
  engine : String

namespace TableDraft

def malformed {α : Type} (cause : Malformed) : Outcome α := .error (.schema (.invalid cause))

def isNameStart (c : Char) : Bool := c.isAlpha || c == '_'

def isNamePart (c : Char) : Bool := c.isAlphanum || c == '_'

/-- Names are ASCII identifiers. -/
def checkName (name : String) : Outcome Unit :=
  match name.toList with
  | [] => malformed .emptyName
  | c :: rest =>
      if !isNameStart c then malformed (.nameStart name)
      else if rest.all isNamePart then .ok ()
      else malformed (.nameCharacters name)

def new (name : String) : Outcome TableDraft := do
  checkName name
  return ⟨name, [], [], [], false, "memory"⟩

def column (d : TableDraft) (name : String) : Outcome Column :=
  match d.columns.find? (·.name == name) with
  | some c => .ok c
  | none => malformed (.missingColumn name)

/-- Changes the column of a name, if there is one. -/
def modifyColumn (d : TableDraft) (name : String) (f : Column → Column) : TableDraft :=
  { d with columns := d.columns.map fun c => if c.name == name then f c else c }

def addColumn (d : TableDraft) (c : Column) : Outcome TableDraft := do
  checkName c.name
  if d.columns.any (·.name == c.name) then malformed (.repeatedColumn c.name)
  else return { d with columns := d.columns ++ [c] }

/-- Unknown names are passed over. -/
def addNotNull (d : TableDraft) (names : List String) : TableDraft :=
  names.foldl (fun d name => d.modifyColumn name fun c => { c with nullable := false }) d

def addDefault (d : TableDraft) (name : String) (v : Value) : Outcome TableDraft := do
  let _ ← d.column name
  return d.modifyColumn name fun c => { c with default := some v }

def checkIndexable (d : TableDraft) (name : String) : Outcome Unit := do
  let c ← d.column name
  if c.dataType.isIndexable then return () else malformed (.notIndexable name)

/-- A later primary key replaces an earlier one. -/
def addPrimaryKey (d : TableDraft) (names : List String) (autoIncrement : Bool) :
    Outcome TableDraft := do
  if names.isEmpty then malformed .emptyKey
  else
    names.forM d.checkIndexable
    return { d with primaryKey := names, autoIncrement := autoIncrement }

def addUnique (d : TableDraft) (name : String) (columns : List String) : Outcome TableDraft := do
  checkName name
  columns.forM fun c => do
    let _ ← d.column c
  return { d with uniqueKeys := d.uniqueKeys.insert name columns }

def addForeignKey (d : TableDraft) (name table : String) : Outcome TableDraft := do
  checkName table
  let _ ← d.column name
  return d.modifyColumn name fun c => { c with references := some table }

def setEngine (d : TableDraft) (engine : String) : TableDraft := { d with engine := engine }

def checkAutoIncrement (d : TableDraft) : Outcome Unit :=
  if d.autoIncrement then
    match d.primaryKey with
    | [name] => do
        let c ← d.column name
        if c.dataType.isInteger then return () else malformed .autoIncrementType
    | _ => malformed (.autoIncrementKey d.name)
  else .ok ()

def build (d : TableDraft) : Outcome TableSchema := do
  d.checkAutoIncrement
  return {
    name := d.name
    columns := d.columns.mapIdx fun i c => { c with index := i }
    primaryKey := d.primaryKey
    uniqueKeys := d.uniqueKeys
    autoIncrement := d.autoIncrement
    engine := d.engine }

end TableDraft

end RelQuery
