import RelQuery.Value.Basic

/-! Expressions over the columns of a statement's sources, and the walk that lists every expression
inside one. -/
namespace RelQuery

structure ColumnRef where
  table : Option String
  column : String
  deriving DecidableEq, Repr

inductive BinaryOp where
  | eq | ne | lt | le | gt | ge
  | and | or
  | add | sub | mul | div | mod
  deriving DecidableEq, Repr

namespace BinaryOp

/-- How tightly an operator binds. -/
def precedence : BinaryOp → Nat
  | or => 1
  | and => 2
  | eq | ne | lt | le | gt | ge => 3
  | add | sub => 4
  | mul | div | mod => 5

def symbol : BinaryOp → String
  | eq => "="
  | ne => "<>"
  | lt => "<"
  | le => "<="
  | gt => ">"
  | ge => ">="
  | and => "AND"
  | or => "OR"
  | add => "+"
  | sub => "-"
  | mul => "*"
  | div => "/"
  | mod => "%"

end BinaryOp

inductive UnaryOp where
  | not | neg | isNull | isNotNull
  deriving DecidableEq, Repr

inductive AggregateFunc where
  | count | sum | avg | min | max | stdDev | geoMean
  | rowNumber | rank | denseRank
  deriving DecidableEq, Repr

namespace AggregateFunc

def name : AggregateFunc → String
  | count => "COUNT"
  | sum => "SUM"
  | avg => "AVG"
  | min => "MIN"
  | max => "MAX"
  | stdDev => "STDDEV"
  | geoMean => "GEOMEAN"
  | rowNumber => "ROW_NUMBER"
  | rank => "RANK"
  | denseRank => "DENSE_RANK"

/-- Whether a function has a meaning only over a window. -/
def windowOnly : AggregateFunc → Bool
  | rowNumber | rank | denseRank => true
  | _ => false

end AggregateFunc

inductive Direction where
  | asc | desc
  deriving DecidableEq, Repr

structure SortKey (ε : Type) where
  expr : ε
  direction : Direction

structure WindowSpec (ε : Type) where
  base : Option String
  partitionBy : List ε
  orderBy : List (SortKey ε)

inductive Over (ε : Type) where
  | named (name : String)
  | spec (spec : WindowSpec ε)

inductive Expr where
  | column (ref : ColumnRef)
  | literal (v : Value)
  /-- A positional parameter, counted from zero. -/
  | param (i : Nat)
  /-- A reference that follows foreign keys from a table of the statement. -/
  | path (table : Option String) (reference : String)
  | binary (op : BinaryOp) (left right : Expr)
  | unary (op : UnaryOp) (e : Expr)
  | call (name : String) (args : List Expr)
  | aggregate (func : AggregateFunc) (arg : Option Expr) (distinct : Bool) (frame : Option (Over Expr))
  | between (negated : Bool) (e low high : Expr)
  | inList (negated : Bool) (e : Expr) (items : List Expr)
  | like (negated : Bool) (e : Expr) (pattern : String)

namespace WindowSpec

/-- The expressions of a specification, partition keys first. -/
def exprs {ε : Type} (s : WindowSpec ε) : List ε := s.partitionBy ++ s.orderBy.map (·.expr)

end WindowSpec

namespace Expr

mutual

/-- An expression and all expressions inside it, each before its parts, window specifications
included. -/
def nodes : Expr → List Expr
  | e@(.column _) | e@(.literal _) | e@(.param _) | e@(.path _ _) => [e]
  | .binary op l r => .binary op l r :: (nodes l ++ nodes r)
  | .unary op e => .unary op e :: nodes e
  | .call name args => .call name args :: nodesOfList args
  | .aggregate func arg distinct frame =>
      .aggregate func arg distinct frame :: (nodesOfArg arg ++ nodesOfOver frame)
  | .between negated e low high =>
      .between negated e low high :: (nodes e ++ nodes low ++ nodes high)
  | .inList negated e items => .inList negated e items :: (nodes e ++ nodesOfList items)
  | .like negated e pattern => .like negated e pattern :: nodes e
  termination_by structural e => e

def nodesOfList : List Expr → List Expr
  | [] => []
  | e :: es => nodes e ++ nodesOfList es
  termination_by structural es => es

def nodesOfArg : Option Expr → List Expr
  | none => []
  | some e => nodes e
  termination_by structural a => a

def nodesOfOver : Option (Over Expr) → List Expr
  | some (.spec ⟨_, partitionBy, orderBy⟩) => nodesOfList partitionBy ++ nodesOfKeys orderBy
  | some (.named _) => []
  | none => []
  termination_by structural o => o

def nodesOfKeys : List (SortKey Expr) → List Expr
  | [] => []
  | ⟨e, _⟩ :: ks => nodes e ++ nodesOfKeys ks
  termination_by structural ks => ks

end

def isWindow : Expr → Bool
  | .aggregate _ _ _ (some _) => true
  | _ => false

def isPlainAggregate : Expr → Bool
  | .aggregate _ _ _ none => true
  | _ => false

def isPath : Expr → Bool
  | .path _ _ => true
  | _ => false

def hasWindow (e : Expr) : Bool := e.nodes.any isWindow

def hasPlainAggregate (e : Expr) : Bool := e.nodes.any isPlainAggregate

def hasPath (e : Expr) : Bool := e.nodes.any isPath

end Expr

end RelQuery
