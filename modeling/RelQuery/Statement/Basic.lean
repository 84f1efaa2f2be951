import RelQuery.Expr.Basic
import RelQuery.Select.Page

/-! Statements. A source is a table or a query of its own, so queries nest through their sources; the
parts of a query that hold sources are parameterised by them. -/
namespace RelQuery

inductive JoinKind where
  | inner | left | right | full
  deriving DecidableEq, Repr

namespace JoinKind

def keepsUnmatchedMain : JoinKind → Bool
  | left | full => true
  | _ => false

def keepsUnmatchedJoin : JoinKind → Bool
  | right | full => true
  | _ => false

end JoinKind

inductive JoinCondition where
  | condition (e : Expr)
  /-- Equality of a column that the main source and the joined source share. -/
  | shared (column : String)

structure JoinOf (σ : Type) where
  kind : JoinKind
  source : σ
  condition : Option JoinCondition
  /-- Whether only qualified references see the joined source. -/
  hidden : Bool

inductive Field where
  | expr (e : Expr) (name : Option String)
  /-- All columns, of one source or of every visible one. -/
  | star (source : Option String)

structure SelectOf (σ : Type) where
  distinct : Bool
  fields : List Field
  sources : List σ
  joins : List (JoinOf σ)
  condition : Option Expr
  groupBy : List Expr
  having : Option Expr
  windows : List (String × WindowSpec Expr)
  orderBy : List (SortKey Expr)
  limit : Option Limit
  offset : Option Nat

inductive Source where
  | table (database : Option String) (name : String) (rename : Option String)
  | derived (query : SelectOf Source) (rename : String)

abbrev Join := JoinOf Source

abbrev Select := SelectOf Source

namespace Source

/-- The name by which a statement refers to the source. -/
def name : Source → String
  | table _ name rename => rename.getD name
  | derived _ rename => rename

def tableName : Source → Option String
  | table _ name _ => some name
  | derived _ _ => none

end Source

namespace JoinOf

/-- An explicit inner join without a condition, which is how further sources are joined. -/
def cross {σ : Type} (source : σ) : JoinOf σ := ⟨.inner, source, none, false⟩

end JoinOf

structure Assignment where
  target : ColumnRef
  value : Expr

inductive InsertValues where
  | rows (rows : List (List Expr))
  | query (q : Select)
  | assignments (set : List Assignment)

inductive OnDuplicate where
  | ignore
  | update (set : List Assignment)

structure Insert where
  target : Source
  columns : List String
  values : InsertValues
  onDuplicate : Option OnDuplicate

structure Update where
  target : Source
  joins : List Join
  set : List Assignment
  condition : Option Expr

structure UsingClause where
  source : Source
  joins : List Join

structure Delete where
  targets : List String
  sources : List Source
  joins : List Join
  usingClause : Option UsingClause
  condition : Option Expr

inductive Statement where
  | select (s : Select)
  | insert (s : Insert)
  | update (s : Update)
  | delete (s : Delete)

namespace Statement

def kind : Statement → String
  | select _ => "SELECT"
  | insert _ => "INSERT"
  | update _ => "UPDATE"
  | delete _ => "DELETE"

end Statement

end RelQuery
