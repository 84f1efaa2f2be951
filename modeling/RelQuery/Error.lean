import RelQuery.Value.Text

/-! What can go wrong, by cause, and the text that reports it. A failed condition keeps the clause
that was being evaluated around the failure inside it; a schema error is found through any number of
such clauses. -/
namespace RelQuery

/-- Why a table definition is refused. -/
inductive Malformed where
  | emptyName
  | nameStart (name : String)
  | nameCharacters (name : String)
  | missingColumn (name : String)
  | repeatedColumn (name : String)
  | emptyKey
  | notIndexable (column : String)
  | autoIncrementKey (table : String)
  | autoIncrementType
  | repeatedTable (database table : String)
  | repeatedStore (database table : String)
  deriving DecidableEq, Repr

namespace Malformed

def message : Malformed → String
  | emptyName => "Name cannot be empty"
  | nameStart name => "Name must start with letter or underscore: " ++ name
  | nameCharacters name => "Name contains invalid characters: " ++ name
  | missingColumn name => "Column not found: " ++ name
  | repeatedColumn name => "Column already exists: " ++ name
  | emptyKey => "Primary key needs at least one column"
  | notIndexable column => "Column is not indexable: " ++ column
  | autoIncrementKey table => "Auto-increment requires a single-column primary key on " ++ table
  | autoIncrementType => "Auto-increment requires integer type"
  | repeatedTable database table => "Table already exists: " ++ database ++ "." ++ table
  | repeatedStore database table => "Store already exists: " ++ database ++ "." ++ table

end Malformed

inductive SchemaError where
  | tableNotFound (database table : String)
  | columnNotFound (table column : String)
  | foreignKeyNotFound (table field : String)
  | primaryKeyNotFound (table : String)
  | compositePrimaryKey (table : String)
  | unrelatedTables (table field expected : String)
  | ambiguousColumn (column : String) (aliases : List String)
  | unknownAlias (name : String)
  | invalid (cause : Malformed)
  deriving DecidableEq, Repr

namespace SchemaError

def message : SchemaError → String
  | tableNotFound database table => "table " ++ database ++ "." ++ table ++ " is not defined"
  | columnNotFound table column => "column " ++ column ++ " is not defined on " ++ table
  | foreignKeyNotFound table field => table ++ "." ++ field ++ " is not a foreign key"
  | primaryKeyNotFound table => "table " ++ table ++ " has no primary key"
  | compositePrimaryKey table =>
      "table " ++ table ++ " has a composite primary key and cannot be referenced"
  | unrelatedTables table field expected =>
      table ++ "." ++ field ++ " does not reference " ++ expected
  | ambiguousColumn column aliases =>
      "column " ++ column ++ " is ambiguous across " ++ Value.listText (aliases.map Text.quoted)
  | unknownAlias name => "table alias " ++ name ++ " is not part of the statement"
  | invalid cause => "invalid schema: " ++ cause.message

end SchemaError

/-- Why a statement or a write is refused. -/
inductive Violation where
  | notNull (table column : String)
  | batchWidth (expected : Nat) (table : String) (actual : Nat)
  | rowWidth (actual expected : Nat) (table : String)
  | readOnly
  | repeatedAlias (name : String)
  | selectWithoutSource
  | deleteWithoutSource
  | targetsWithUsing
  | unknownTarget (name : String)
  | insertIntoDerived (target : String)
  | insertWidth (table : String) (expected actual : Nat)
  | foreignAssignment (name column : String)
  | windowCycle (name : String)
  | windowUndefined (name : String)
  | windowInCall (call : String)
  | windowInSpec (spec : String)
  | pathWithoutSource
  | pathFromDerived (name : String)
  | starOutsideField (path : String)
  | notArrow (reference : String)
  | outgoingWithoutBase (reference : String)
  /-- A duplicate handler declined the row, in its own words. -/
  | declined (reason : String)
  deriving DecidableEq, Repr

namespace Violation

def message : Violation → String
  | notNull table column => table ++ "." ++ column ++ " cannot be NULL"
  | batchWidth expected table actual =>
      "expected " ++ toString expected ++ " values for " ++ table ++ ", got " ++ toString actual
  | rowWidth actual expected table =>
      "row width " ++ toString actual ++ " does not match " ++ toString expected ++ " columns of " ++
        table
  | readOnly => "derived sources are read-only"
  | repeatedAlias name => "duplicate table alias " ++ name
  | selectWithoutSource => "SELECT requires a source"
  | deleteWithoutSource => "DELETE requires a source"
  | targetsWithUsing => "DELETE cannot combine a target list with USING"
  | unknownTarget name => "DELETE target " ++ name ++ " is not among the sources"
  | insertIntoDerived target => "INSERT target must be a base table, got " ++ target
  | insertWidth table expected actual =>
      "INSERT INTO " ++ table ++ " expects " ++ toString expected ++ " values per row, got " ++
        toString actual
  | foreignAssignment name column =>
      "ON DUPLICATE can only assign columns of " ++ name ++ ", not " ++ column
  | windowCycle name => "window " ++ name ++ " is defined in terms of itself"
  | windowUndefined name => "window " ++ name ++ " is not defined"
  | windowInCall call => "window functions cannot be nested: " ++ call
  | windowInSpec spec => "window specification cannot contain window functions: " ++ spec
  | pathWithoutSource => "statement has no source"
  | pathFromDerived name => "arrow references cannot start from derived source " ++ name
  | starOutsideField path => path ++ " selects every column and is only allowed as a field"
  | notArrow reference => reference ++ " is not an arrow reference"
  | outgoingWithoutBase reference => "outgoing reference " ++ reference ++ " needs a base table"
  | declined reason => reason

end Violation

/-- Why an operation has no result. -/
inductive Misuse where
  | missingRow (id : Nat)
  | danglingEntry
  | notStarted
  | unboundParameter (number : Nat)
  | unlinkedPath (path : String)
  | windowOutside (call : String)
  | aggregateOutside (call : String)
  | pendingField (name : String)
  | overflow (operator : String)
  | divisionByZero
  | notArithmetic (operator : String)
  | negationOverflow
  | absOverflow
  | sumOverflow
  | argumentCount (function : String) (expected actual : Nat)
  | unknownFunction (name : String)
  | windowRequired (function : String)
  | notWindow
  | missingFrame
  | missingResult
  | nestedTooDeep
  deriving DecidableEq, Repr

namespace Misuse

def message : Misuse → String
  | missingRow id => "row " ++ toString id ++ " does not exist"
  | danglingEntry => "unique index points at a missing row"
  | notStarted => "join engine fetched before init"
  | unboundParameter number => "parameter ?" ++ toString number ++ " is not bound"
  | unlinkedPath path => "path " ++ path ++ " was not resolved to a join"
  | windowOutside call => "window function " ++ call ++ " evaluated outside of its window"
  | aggregateOutside call => "aggregate " ++ call ++ " used outside of a group"
  | pendingField name => "field " ++ name ++ " is not computed yet"
  | overflow operator => "integer overflow in " ++ operator
  | divisionByZero => "division by zero"
  | notArithmetic operator => operator ++ " is not arithmetic"
  | negationOverflow => "integer overflow in negation"
  | absOverflow => "integer overflow in ABS"
  | sumOverflow => "integer overflow in SUM"
  | argumentCount function expected actual =>
      function ++ " expects " ++ toString expected ++ " argument(s), got " ++ toString actual
  | unknownFunction name => "unknown function " ++ name
  | windowRequired function => function ++ "() requires an OVER clause"
  | notWindow => "not a window function"
  | missingFrame => "window frame missing"
  | missingResult => "window result missing"
  | nestedTooDeep => "queries are nested too deep"

end Misuse

inductive Error where
  | schema (cause : SchemaError)
  | condition (clause : String) (cause : Error)
  | validation (cause : Violation)
  | typeMismatch (expected : String) (found : Value)
  | uniqueConstraint (index : String) (key : Key)
  | invalidOperation (cause : Misuse)
  deriving DecidableEq, Repr

namespace Error

def message : Error → String
  | schema cause => cause.message
  | condition clause cause => "failed to evaluate \x60" ++ clause ++ "\x60: " ++ cause.message
  | validation cause => "validation error: " ++ cause.message
  | typeMismatch expected found =>
      "type mismatch: expected " ++ expected ++ ", found " ++ found.tagged
  | uniqueConstraint index key =>
      "unique constraint violation on " ++ index ++ ": " ++ Value.taggedList key
  | invalidOperation cause => "invalid operation: " ++ cause.message

def schema? : Error → Option SchemaError
  | schema cause => some cause
  | condition _ cause => cause.schema?
  | _ => none

end Error

/-- A result, or the reason why there is none. -/
abbrev Outcome := Except Error

namespace Outcome

variable {α β : Type}

def refuse (cause : Violation) : Outcome α := .error (.validation cause)

theorem bindOk {o : Outcome α} {f : α → Outcome β} {b : β} :
    o >>= f = .ok b ↔ ∃ a, o = .ok a ∧ f a = .ok b := by
  cases o <;> simp [bind, Except.bind]

theorem pureOk {a b : α} : (pure a : Outcome α) = .ok b ↔ a = b := by
  simp [pure, Except.pure]

theorem mapOk {o : Outcome α} {f : α → β} {b : β} :
    o.map f = .ok b ↔ ∃ a, o = .ok a ∧ f a = b := by
  cases o <;> simp [Except.map]

theorem mapError {o : Outcome α} {f : α → β} {e : Error} : o.map f = .error e ↔ o = .error e := by
  cases o <;> simp [Except.map]

theorem refuseOk {cause : Violation} {a : α} : (refuse cause : Outcome α) ≠ .ok a :=
  nofun

end Outcome

end RelQuery
