import RelQuery.Expr.Basic
import RelQuery.Value.Text

/-! The text of expressions. An operand that is itself a binary operation stands in parentheses when
it binds less tightly than the operator, or just as tightly on the right. -/
namespace RelQuery

namespace ColumnRef

def text (c : ColumnRef) : String :=
  match c.table with
  | some table => table ++ "." ++ c.column
  | none => c.column

end ColumnRef

def commaList (items : List String) : String := ", ".intercalate items

namespace SortKey

def textWith (expr : String) : Direction → String
  | .asc => expr
  | .desc => expr ++ " DESC"

end SortKey

namespace WindowSpec

/-- The parts of a specification that are present, with a blank between them. -/
def textWith (base : Option String) (partitionBy orderBy : List String) : String :=
  " ".intercalate (base.toList ++
    (if partitionBy.isEmpty then [] else ["PARTITION BY " ++ commaList partitionBy]) ++
    (if orderBy.isEmpty then [] else ["ORDER BY " ++ commaList orderBy]))

end WindowSpec

namespace Expr

def inParens (s : String) : String := "(" ++ s ++ ")"

/-- Whether an operand needs parentheses. -/
def loose (parent : BinaryOp) (right : Bool) : Expr → Bool
  | .binary op _ _ =>
      op.precedence < parent.precedence || (right && op.precedence == parent.precedence)
  | _ => false

def negation (negated : Bool) : String := if negated then " NOT" else ""

mutual

def text : Expr → String
  | .column ref => ref.text
  | .literal v => v.literal
  | .param i => "?" ++ toString (i + 1)
  | .path table reference =>
      match table with
      | some t => t ++ "." ++ reference
      | none => reference
  | .binary op l r =>
      let left := text l
      let right := text r
      (if loose op false l then inParens left else left) ++ " " ++ op.symbol ++ " " ++
        (if loose op true r then inParens right else right)
  | .unary op e =>
      match op with
      | .not => "NOT " ++ inParens (text e)
      | .neg => "-" ++ inParens (text e)
      | .isNull => text e ++ " IS NULL"
      | .isNotNull => text e ++ " IS NOT NULL"
  | .call name args => name ++ inParens (commaList (textOfList args))
  | .aggregate func arg distinct frame =>
      func.name ++ inParens ((if distinct then "DISTINCT " else "") ++ textOfArg func arg) ++
        textOfOver frame
  | .between negated e low high =>
      text e ++ negation negated ++ " BETWEEN " ++ text low ++ " AND " ++ text high
  | .inList negated e items =>
      text e ++ negation negated ++ " IN " ++ inParens (commaList (textOfList items))
  | .like negated e pattern => text e ++ negation negated ++ " LIKE " ++ Value.quoteLiteral pattern
  termination_by structural e => e

def textOfList : List Expr → List String
  | [] => []
  | e :: es => text e :: textOfList es
  termination_by structural es => es

def textOfArg (func : AggregateFunc) : Option Expr → String
  | none => if func.windowOnly then "" else "*"
  | some e => text e
  termination_by structural a => a

def textOfOver : Option (Over Expr) → String
  | none => ""
  | some (.named name) => " OVER " ++ name
  | some (.spec ⟨base, partitionBy, orderBy⟩) =>
      " OVER " ++ inParens (WindowSpec.textWith base (textOfList partitionBy) (textOfKeys orderBy))
  termination_by structural o => o

def textOfKeys : List (SortKey Expr) → List String
  | [] => []
  | ⟨e, direction⟩ :: ks => SortKey.textWith (text e) direction :: textOfKeys ks
  termination_by structural ks => ks

end

end Expr

def SortKey.text (k : SortKey Expr) : String := textWith k.expr.text k.direction

def WindowSpec.text (s : WindowSpec Expr) : String :=
  textWith s.base (s.partitionBy.map Expr.text) (s.orderBy.map SortKey.text)

end RelQuery
