import RelQuery.Expr.Eval
import RelQuery.Join.Source
import RelQuery.Statement.Text
import Std.Data.TreeSet

/-! The composition at the current positions of a join's cursors, if these positions form one. A match
of a joined row is recorded with the positions before it; once a cursor is past its end, LEFT and
FULL joins keep the positions that were never recorded, and once the main cursor is past its end,
RIGHT and FULL joins keep the joined rows that were never recorded. -/
namespace RelQuery

/-- The matches of one join: the positions of the cursors before it, nearest first, and its own. Each
is kept where the kind of the join asks for it. -/
structure MatchRecord where
  leads : Std.TreeSet (List Nat)
  rows : Std.TreeSet Nat

namespace MatchRecord

def none : MatchRecord := ⟨∅, ∅⟩

def record (m : MatchRecord) (kind : JoinKind) (lead : List Nat) (position : Nat) : MatchRecord :=
  ⟨if kind.keepsUnmatchedMain then m.leads.insert lead else m.leads,
    if kind.keepsUnmatchedJoin then m.rows.insert position else m.rows⟩

def leadMatched (m : MatchRecord) (lead : List Nat) : Bool := m.leads.contains lead

def rowMatched (m : MatchRecord) (position : Nat) : Bool := m.rows.contains position

end MatchRecord

def passes (e : Expr) (c : Composition) (params : List Value) : Outcome Bool :=
  e.satisfied (.ofRow c params)

namespace JoinSource

/-- Whether two sources agree on a column. NULL agrees with nothing. -/
def agrees (c : Composition) (main joined column : String) : Outcome Bool := do
  let left ← c.column main column
  let right ← c.column joined column
  return !left.isNull && !right.isNull && left.order right == .eq

/-- Evaluates a USING clause; its text stands in a failure. -/
def shares (c : Composition) (main joined column : String) : Outcome Bool :=
  match agrees c main joined column with
  | .error cause => .error (.condition ("USING (" ++ column ++ ")") cause)
  | .ok b => .ok b

/-- Whether the joined row at the end of a composition matches what stands before it. -/
def holds (j : JoinSource) (main : String) (params : List Value) (c : Composition) : Outcome Bool :=
  match j.condition with
  | none => .ok true
  | some (.shared column) => shares c main j.source.name column
  | some (.condition e) => passes e c params

/-- Adds the current row of a join to a composition, or an empty sub-row, or rejects. -/
def extend (j : JoinSource) (main : String) (params : List Value) (mainAtEnd : Bool)
    (beforeOuter : Bool) (m : MatchRecord) (lead : List Nat) (c : Composition) :
    MatchRecord × Outcome (Option Composition) :=
  let position := j.source.cursor.position
  match j.source.cursor.fetch with
  | some row =>
      if mainAtEnd && beforeOuter then (m, .ok none)
      else
        let extended := j.source.pushInto c (some row)
        if mainAtEnd && j.kind.keepsUnmatchedJoin then
          (m, .ok (if m.rowMatched position then none else some extended))
        else
          match j.holds main params extended with
          | .error e => (m, .error e)
          | .ok true => (m.record j.kind lead position, .ok (some extended))
          | .ok false => (m, .ok none)
  | none =>
      let kept := (mainAtEnd && beforeOuter) ||
        (j.kind.keepsUnmatchedMain && c.hasRows && !m.leadMatched lead)
      (m, .ok (if kept then some (j.source.pushInto c none) else none))

/-- Adds the joins one after another. `early` tells that a RIGHT or FULL join is still to come. -/
def extendAll (main : String) (params : List Value) (mainAtEnd : Bool) :
    List JoinSource → List MatchRecord → Bool → List Nat → Composition →
      List MatchRecord × Outcome (Option Composition)
  | [], records, _, _, c => (records, .ok (some c))
  | j :: js, records, early, lead, c =>
      let beforeOuter := early && !j.kind.keepsUnmatchedJoin
      match j.extend main params mainAtEnd beforeOuter (records.headD .none) lead c with
      | (m, .ok (some c')) =>
          let (ms, o) := extendAll main params mainAtEnd js records.tail beforeOuter
            (j.source.cursor.position :: lead) c'
          (m :: ms, o)
      | (m, o) => (m :: records.tail, o)

end JoinSource

end RelQuery
