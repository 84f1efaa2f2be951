import RelQuery.Expr.Text
import RelQuery.Statement.Basic
import RelQuery.Schema.Table

/-! The text of statements. Clauses come in the order in which they are written; absent ones leave no
trace. -/
namespace RelQuery

namespace Limit

def text : Limit → String
  | count n => "LIMIT " ++ toString n
  | range offset n => "LIMIT " ++ toString offset ++ ", " ++ toString n

end Limit

namespace JoinKind

def text : JoinKind → String
  | inner => "INNER JOIN"
  | left => "LEFT JOIN"
  | right => "RIGHT JOIN"
  | full => "FULL JOIN"

end JoinKind

namespace JoinCondition

def text : JoinCondition → String
  | condition e => "ON " ++ e.text
  | shared column => "USING (" ++ column ++ ")"

end JoinCondition

namespace Field

def isIdentifier (name : String) : Bool := (TableDraft.checkName name).toOption.isSome

def text : Field → String
  | expr e none => e.text
  | expr e (some name) =>
      e.text ++ " AS " ++ if isIdentifier name then name else "\"" ++ name ++ "\""
  | star (some source) => source ++ ".*"
  | star none => "*"

/-- The column name of a field in the result. -/
def outputName : Field → String
  | expr _ (some name) => name
  | expr (.column ref) none => ref.column
  | expr (.path _ reference) none => reference
  | expr e none => e.text
  | star (some source) => source ++ ".*"
  | star none => "*"

end Field

/-- A clause that is written only when its text is there. -/
def clause (lead : String) (text : Option String) : String :=
  match text with
  | some t => lead ++ t
  | none => ""

def listClause (lead : String) (items : List String) : String :=
  if items.isEmpty then "" else lead ++ commaList items

def windowText (w : String × WindowSpec Expr) : String := w.1 ++ " AS (" ++ w.2.text ++ ")"

namespace SelectOf

/-- The text of a query whose sources and joins are already written. -/
def textWith {σ : Type} (q : SelectOf σ) (sources joins : List String) : String :=
  "SELECT " ++ (if q.distinct then "DISTINCT " else "") ++ commaList (q.fields.map Field.text) ++
    " FROM " ++ commaList sources ++ String.join joins ++
    clause " WHERE " (q.condition.map Expr.text) ++
    listClause " GROUP BY " (q.groupBy.map Expr.text) ++
    clause " HAVING " (q.having.map Expr.text) ++
    listClause " WINDOW " (q.windows.map windowText) ++
    listClause " ORDER BY " (q.orderBy.map SortKey.text) ++
    clause " " (q.limit.map Limit.text) ++
    clause " OFFSET " (q.offset.map toString)

end SelectOf

namespace Source

def tableText (database : Option String) (name : String) (rename : Option String) : String :=
  (match database with
    | some d => d ++ "."
    | none => "") ++ name ++ clause " AS " rename

def joinText (kind : JoinKind) (source : String) (condition : Option JoinCondition) : String :=
  " " ++ kind.text ++ " " ++ source ++ clause " " (condition.map JoinCondition.text)

mutual

def text : Source → String
  | .table database name rename => tableText database name rename
  | .derived query rename => "(" ++ textOfQuery query ++ ") AS " ++ rename
  termination_by structural s => s

def textOfQuery : SelectOf Source → String
  | ⟨distinct, fields, sources, joins, condition, groupBy, having, windows, orderBy, limit, offset⟩ =>
      SelectOf.textWith
        (⟨distinct, fields, [], [], condition, groupBy, having, windows, orderBy, limit, offset⟩ :
          SelectOf Source)
        (textOfSources sources) (textOfJoins joins)
  termination_by structural q => q

def textOfSources : List Source → List String
  | [] => []
  | s :: rest => text s :: textOfSources rest
  termination_by structural ss => ss

def textOfJoins : List (JoinOf Source) → List String
  | [] => []
  | ⟨kind, source, condition, _⟩ :: rest =>
      joinText kind (text source) condition :: textOfJoins rest
  termination_by structural js => js

end

end Source

namespace JoinOf

/-- The text of a join, without the blank that sets it off from what comes before. -/
def text (j : Join) : String :=
  j.kind.text ++ " " ++ j.source.text ++ clause " " (j.condition.map JoinCondition.text)

end JoinOf

def joinsText (joins : List Join) : String := String.join (joins.map fun j => " " ++ j.text)

namespace SelectOf

def text (q : Select) : String := Source.textOfQuery q

end SelectOf

namespace Assignment

def text (a : Assignment) : String := a.target.text ++ " = " ++ a.value.text

end Assignment

def assignmentsText (set : List Assignment) : String := commaList (set.map Assignment.text)

namespace Insert

def valuesText : InsertValues → String
  | .rows rows =>
      " VALUES " ++ commaList (rows.map fun r => "(" ++ commaList (r.map Expr.text) ++ ")")
  | .query q => " " ++ q.text
  | .assignments set => " SET " ++ assignmentsText set

def text (s : Insert) : String :=
  (match s.onDuplicate with
    | some .ignore => "INSERT IGNORE INTO "
    | _ => "INSERT INTO ") ++ s.target.text ++
    (if s.columns.isEmpty then "" else " (" ++ commaList s.columns ++ ")") ++ valuesText s.values ++
    match s.onDuplicate with
    | some (.update set) => " ON DUPLICATE KEY UPDATE " ++ assignmentsText set
    | _ => ""

end Insert

namespace Update

def text (s : Update) : String :=
  "UPDATE " ++ s.target.text ++ joinsText s.joins ++ " SET " ++ assignmentsText s.set ++
    clause " WHERE " (s.condition.map Expr.text)

end Update

namespace Delete

def usingText (u : UsingClause) : String := " USING " ++ u.source.text ++ joinsText u.joins

def text (s : Delete) : String :=
  "DELETE " ++ (if s.targets.isEmpty then "" else commaList s.targets ++ " ") ++ "FROM " ++
    commaList (s.sources.map Source.text) ++ joinsText s.joins ++
    (match s.usingClause with
      | some u => usingText u
      | none => "") ++ clause " WHERE " (s.condition.map Expr.text)

end Delete

namespace Statement

def text : Statement → String
  | select s => s.text
  | insert s => s.text
  | update s => s.text
  | delete s => s.text

end Statement

end RelQuery
