import RelQuery.Expr.Substitution
import RelQuery.Select.Output

/-! Window functions over the output rows of a query. A frame splits the rows into partitions by key and
orders each one; ranks count within a partition, and any other function aggregates the rows up to the
last one that the order does not tell apart, or the whole partition where there is no order. Frames
and results are kept under their texts, so that each is computed once. -/
namespace RelQuery

structure WindowFrame where
  /-- Row numbers by partition. -/
  partitions : List (List Nat)
  /-- The order key of each row. -/
  orderKeys : Array Key
  directions : List Direction
  deriving DecidableEq, Repr

namespace WindowFrame

def keyOf (f : WindowFrame) (row : Nat) : Key := f.orderKeys[row]?.getD []

def orderRows (keys : Array Key) (directions : List Direction) (rows : List Nat) : List Nat :=
  (Key.sortBy directions (rows.map fun r => (keys[r]?.getD [], r))).map (·.2)

/-- The partition key and the order key of an output row. -/
def rowKeys (spec : WindowSpec Expr) (params : List Value) (o : Output) : Outcome (Key × Key) := do
  let scope := o.fieldScope params
  let partitionKey ← Expr.evalList spec.partitionBy scope
  let orderKey ← Expr.evalList (spec.orderBy.map (·.expr)) scope
  return (partitionKey, orderKey)

def build (spec : WindowSpec Expr) (outputs : List Output) (params : List Value) :
    Outcome WindowFrame := do
  let keys ← outputs.mapM (rowKeys spec params)
  let orderKeys := (keys.map (·.2)).toArray
  let directions := spec.orderBy.map (·.direction)
  let groups := Grouping.ofKeyed (keys.zipIdx.map fun (k, i) => (k.1, i))
  return ⟨groups.map fun g => orderRows orderKeys directions g.members, orderKeys, directions⟩

def peers (f : WindowFrame) (a b : Nat) : Bool :=
  Key.compareBy f.directions (f.keyOf a) (f.keyOf b) == .eq

def isOrdered (f : WindowFrame) : Bool := !f.directions.isEmpty

def counted (rows : List Nat) : List (Nat × Value) :=
  rows.mapIdx fun i row => (row, .int (Int64.ofNat (i + 1)))

/-- Rank and dense rank of the rows after some others: `before` is the last of those, `seen` their
number, and `rank` and `dense` its ranks. -/
def ranksAfter (f : WindowFrame) (before : Option Nat) (seen rank dense : Nat) :
    List Nat → List (Nat × Nat × Nat)
  | [] => []
  | row :: rows =>
      let peer := before.any (f.peers · row)
      let rank := if peer then rank else seen + 1
      let dense := if peer then dense else dense + 1
      (row, rank, dense) :: ranksAfter f (some row) (seen + 1) rank dense rows

def ranks (f : WindowFrame) (rows : List Nat) : List (Nat × Nat × Nat) := f.ranksAfter none 0 0 0 rows

/-- Splits the rows of a partition into runs that the order does not tell apart. -/
def runs (f : WindowFrame) : List Nat → List (List Nat)
  | [] => []
  | row :: rows => (row :: rows.takeWhile (f.peers row)) :: runs f (rows.dropWhile (f.peers row))
  termination_by rows => rows.length
  decreasing_by
    exact Nat.lt_succ_of_le (List.dropWhile_sublist _).length_le

/-- The inputs of an aggregate, one for each row. -/
def inputs (args : Array Value) (rows : List Nat) : List Value := rows.map fun row => args[row]?.getD .null

/-- Aggregates each run together with the inputs before it. -/
def running (func : AggregateFunc) (distinct : Bool) (args : Array Value) (before : List Value) :
    List (List Nat) → Outcome (List (Nat × Value))
  | [] => .ok []
  | run :: rest => do
      let upTo := before ++ inputs args run
      let v ← Aggregate.compute func distinct upTo
      let others ← running func distinct args upTo rest
      return run.map (·, v) ++ others

def overPartition (f : WindowFrame) (func : AggregateFunc) (distinct : Bool) (args : Array Value)
    (rows : List Nat) : Outcome (List (Nat × Value)) :=
  match func with
  | .rowNumber => .ok (counted rows)
  | .rank => .ok ((f.ranks rows).map fun (row, rank, _) => (row, .int (Int64.ofNat rank)))
  | .denseRank => .ok ((f.ranks rows).map fun (row, _, dense) => (row, .int (Int64.ofNat dense)))
  | _ =>
      if f.isOrdered then running func distinct args [] (f.runs rows)
      else do
        let v ← Aggregate.compute func distinct (inputs args rows)
        return rows.map (·, v)

/-- The value of a function for each row, given those of its argument. -/
def compute (f : WindowFrame) (func : AggregateFunc) (distinct : Bool) (args : Array Value) :
    Outcome (Array Value) := do
  let values := (← f.partitions.mapM (f.overPartition func distinct args)).flatten
  return values.foldl (fun out (row, v) => out.setIfInBounds row v) (args.map fun _ => .null)

end WindowFrame

/-- The window definitions of a query, and what has been computed with them. -/
structure Windows where
  definitions : List (String × WindowSpec Expr)
  params : List Value
  frames : List (String × WindowFrame)
  results : List (String × Array Value)

namespace Windows

def new (definitions : List (String × WindowSpec Expr)) (params : List Value) : Windows :=
  ⟨definitions, params, [], []⟩

/-- Adds the keys of a specification to those of the one that it is based on. -/
def refine (base spec : WindowSpec Expr) : WindowSpec Expr :=
  { base with
    partitionBy := base.partitionBy ++ spec.partitionBy
    orderBy := if spec.orderBy.isEmpty then base.orderBy else spec.orderBy }

/-- Follows base names from a name. A chain longer than the list of definitions goes in a circle. -/
def resolveNamed (definitions : List (String × WindowSpec Expr)) :
    Nat → String → Outcome (WindowSpec Expr)
  | 0, name => .refuse (.windowCycle name)
  | steps + 1, name =>
      match definitions.lookup name with
      | none => .refuse (.windowUndefined name)
      | some spec =>
          match spec.base with
          | none => .ok spec
          | some base => do return refine (← resolveNamed definitions steps base) spec

/-- The specification, without a base, that an OVER clause stands for. -/
def resolve (w : Windows) (frame : Over Expr) : Outcome (WindowSpec Expr) :=
  let steps := w.definitions.length + 1
  match frame with
  | .named name => resolveNamed w.definitions steps name
  | .spec spec =>
      match spec.base with
      | none => .ok spec
      | some base => do return refine (← resolveNamed w.definitions steps base) spec

/-- The frame of a specification, which is built on first use. -/
def frame (w : Windows) (spec : WindowSpec Expr) (outputs : List Output) :
    Outcome (Windows × WindowFrame) :=
  match w.frames.lookup spec.text with
  | some f => .ok (w, f)
  | none => do
      let f ← WindowFrame.build spec outputs w.params
      return ({ w with frames := (spec.text, f) :: w.frames }, f)

def argument (w : Windows) (arg : Option Expr) (o : Output) : Outcome Value :=
  match arg with
  | some e => e.eval (o.scope w.params)
  | none => .ok (.boolean true)

/-- Computes a call for each output row. -/
def computeCall (w : Windows) (call : Expr) (outputs : List Output) :
    Outcome (Windows × Array Value) :=
  match call with
  | .aggregate func arg distinct (some frame) =>
      if arg.any Expr.hasWindow then .refuse (.windowInCall call.text)
      else do
        let spec ← w.resolve frame
        if spec.exprs.any Expr.hasWindow then .refuse (.windowInSpec spec.text)
        else do
          let (w, f) ← w.frame spec outputs
          let args ← outputs.mapM (w.argument arg)
          let values ← f.compute func distinct args.toArray
          return (w, values)
  | _ => .error (.invalidOperation .notWindow)

/-- Computes a call unless its text was met before. -/
def remember (outputs : List Output) (w : Windows) (call : Expr) : Outcome Windows :=
  match w.results.lookup call.text with
  | some _ => .ok w
  | none => do
      let (w, values) ← w.computeCall call outputs
      return { w with results := (call.text, values) :: w.results }

/-- The value of a call for a row, as it was computed. -/
def result (w : Windows) (row : Nat) (call : Expr) : Outcome Expr :=
  match (w.results.lookup call.text).bind (·[row]?) with
  | some v => .ok (.literal v)
  | none => .error (.invalidOperation .missingResult)

def substitute (w : Windows) (row : Nat) (e : Expr) : Outcome Expr :=
  e.substituteM fun call => if call.isWindow then some (w.result row call) else none

/-- The value of a field for each output row. -/
def evalField (w : Windows) (e : Expr) (outputs : List Output) : Outcome (Windows × List Value) := do
  let w ← (e.nodes.filter Expr.isWindow).foldlM (remember outputs) w
  let values ← outputs.zipIdx.mapM fun (o, row) => do
    (← w.substitute row e).eval (o.scope w.params)
  return (w, values)

end Windows

end RelQuery
