import RelQuery.Aggregate
import RelQuery.Composition
import RelQuery.Expr.Text
import RelQuery.Pattern
import RelQuery.Text.Case

/-! Evaluation of expressions in a scope. Conditions follow three-valued logic, with NULL for the
unknown truth value; integer arithmetic is exact or fails; division always gives a double. -/
namespace RelQuery

/-- What an expression sees. -/
structure Scope where
  row : Composition
  /-- The members of the current group, for aggregates. -/
  group : Option (List Composition)
  params : List Value
  /-- Whether output fields are looked up before source columns. -/
  projectionFirst : Bool

namespace Scope

def ofRow (row : Composition) (params : List Value) : Scope := ⟨row, none, params, false⟩

/-- The scope of a group member in which an aggregate's argument is evaluated. -/
def member (s : Scope) (row : Composition) : Scope := { s with row := row, group := none }

def projected (s : Scope) (name : String) : Outcome Value :=
  match s.row.slot? name with
  | some (.value v) => .ok v
  | some .unset => .error (.invalidOperation (.pendingField name))
  | none => .error (.schema (.columnNotFound projectionAlias name))

def unqualified (s : Scope) (name : String) : Outcome Value :=
  match if s.projectionFirst then s.row.slotValue? name else none with
  | some v => .ok v
  | none => do
      match ← s.row.find name with
      | some v => .ok v
      | none =>
          match s.row.slotValue? name with
          | some v => .ok v
          | none => .error (.schema (.columnNotFound (commaList s.row.aliases) name))

def column (s : Scope) (ref : ColumnRef) : Outcome Value :=
  match ref.table with
  | some table =>
      if table = projectionAlias then s.projected ref.column else s.row.column table ref.column
  | none => s.unqualified ref.column

end Scope

namespace Logic

/-- The truth of a value; NULL is unknown. -/
def truth (v : Value) : Option Bool := if v.isNull then none else some v.isTruthy

def toValue : Option Bool → Value
  | some b => .boolean b
  | none => .null

def negate (t : Option Bool) : Value := toValue (t.map (!·))

def negateIf (negated : Bool) (v : Value) : Value := if negated then negate (truth v) else v

def conjunction : Option Bool → Option Bool → Option Bool
  | _, some false => some false
  | some false, _ => some false
  | some true, some true => some true
  | _, _ => none

def disjunction : Option Bool → Option Bool → Option Bool
  | _, some true => some true
  | some true, _ => some true
  | some false, some false => some false
  | _, _ => none

end Logic

namespace Eval

def holds (op : BinaryOp) (o : Ordering) : Bool :=
  match op with
  | .eq => o == .eq
  | .ne => o != .eq
  | .lt => o == .lt
  | .le => o != .gt
  | .gt => o == .gt
  | .ge => o != .lt
  | _ => false

def comparison (op : BinaryOp) (l r : Value) : Value :=
  if l.isNull || r.isNull then .null else .boolean (holds op (l.order r))

def exact (cause : Misuse) (n : Int) : Outcome Value :=
  match Value.ofInt? n with
  | some n => .ok (.int n)
  | none => .error (.invalidOperation cause)

def divisionByZero : Error := .invalidOperation .divisionByZero

def notArithmetic (op : BinaryOp) : Error := .invalidOperation (.notArithmetic op.symbol)

def integerArithmetic (op : BinaryOp) (a b : Int64) : Outcome Value :=
  let overflow := Misuse.overflow op.symbol
  match op with
  | .add => exact overflow (a.toInt + b.toInt)
  | .sub => exact overflow (a.toInt - b.toInt)
  | .mul => exact overflow (a.toInt * b.toInt)
  | .div =>
      if b = 0 then .error divisionByZero
      else .ok (.float ((Binary64.ofInt64 a).div (Binary64.ofInt64 b)))
  | .mod =>
      if b = 0 then .error divisionByZero
      else do
        let _ ← exact overflow (a.toInt.tdiv b.toInt)
        exact overflow (a.toInt.tmod b.toInt)
  | _ => .error (notArithmetic op)

def floatArithmetic (op : BinaryOp) (a b : Binary64) : Outcome Value :=
  match op with
  | .add => .ok (.float (a.add b))
  | .sub => .ok (.float (a.sub b))
  | .mul => .ok (.float (a.mul b))
  | .div => if b.isZero then .error divisionByZero else .ok (.float (a.div b))
  | .mod => if b.isZero then .error divisionByZero else .ok (.float (a.rem b))
  | _ => .error (notArithmetic op)

def arithmetic (op : BinaryOp) (l r : Value) : Outcome Value :=
  if l.isNull || r.isNull then .ok .null
  else
    match l, r with
    | .int a, .int b => integerArithmetic op a b
    | _, _ => do floatArithmetic op (← l.number) (← r.number)

/-- A binary operation other than AND and OR. -/
def strict (op : BinaryOp) (l r : Value) : Outcome Value :=
  if op.precedence = 3 then .ok (comparison op l r) else arithmetic op l r

def unary (op : UnaryOp) (v : Value) : Outcome Value :=
  match op with
  | .not => .ok (Logic.negate (Logic.truth v))
  | .isNull => .ok (.boolean v.isNull)
  | .isNotNull => .ok (.boolean !v.isNull)
  | .neg =>
      match v with
      | .null => .ok .null
      | .int n => exact .negationOverflow (-n.toInt)
      | .float x => .ok (.float x.neg)
      | other => .error (.typeMismatch "numeric" other)

def between (v low high : Value) : Value :=
  if v.isNull || low.isNull || high.isNull then .null
  else .boolean (v.order low != .lt && v.order high != .gt)

def like (v : Value) (pattern : String) : Value :=
  if v.isNull then .null else .boolean (matchesPattern v.text pattern)

def withOne (name : String) (args : List Value) (f : Value → Outcome Value) : Outcome Value :=
  match args with
  | [v] => f v
  | _ => .error (.invalidOperation (.argumentCount name 1 args.length))

def onText (f : String → Value) : Value → Value
  | .null => .null
  | v => f v.text

def length : Value → Value
  | .null => .null
  | .bytes bs => .int (Int64.ofNat bs.length)
  | v => .int (Int64.ofNat v.text.length)

def absolute : Value → Outcome Value
  | .null => .ok .null
  | .int n => exact .absOverflow n.toInt.natAbs
  | .float x => .ok (.float x.abs)
  | other => .error (.typeMismatch "numeric" other)

def firstPresent (args : List Value) : Value := (args.find? (!·.isNull)).getD .null

def concat (args : List Value) : Value :=
  if args.any Value.isNull then .null else .string (String.join (args.map Value.text))

/-- Applies a scalar function; names are read without regard to the case of ASCII letters. -/
def call (name : String) (args : List Value) : Outcome Value :=
  let function := name.map Char.toUpper
  if function = "UPPER" then withOne function args (.ok ∘ onText (.string ∘ Text.upper))
  else if function = "LOWER" then withOne function args (.ok ∘ onText (.string ∘ Text.lower))
  else if function = "LENGTH" then withOne function args (.ok ∘ length)
  else if function = "ABS" then withOne function args absolute
  else if function = "COALESCE" then .ok (firstPresent args)
  else if function = "IFNULL" then
    if args.length = 2 then .ok (firstPresent args)
    else .error (.invalidOperation (.argumentCount function 2 args.length))
  else if function = "CONCAT" then .ok (concat args)
  else .error (.invalidOperation (.unknownFunction name))

end Eval

namespace Expr

mutual

def eval : Expr → Scope → Outcome Value
  | .column ref, s => s.column ref
  | .literal v, _ => .ok v
  | .param i, s =>
      match s.params[i]? with
      | some v => .ok v
      | none => .error (.invalidOperation (.unboundParameter (i + 1)))
  | .path table reference, _ =>
      .error (.invalidOperation (.unlinkedPath (Expr.path table reference).text))
  | .binary .and l r, s => do
      let left := Logic.truth (← eval l s)
      if left = some false then return .boolean false
      else return Logic.toValue (Logic.conjunction left (Logic.truth (← eval r s)))
  | .binary .or l r, s => do
      let left := Logic.truth (← eval l s)
      if left = some true then return .boolean true
      else return Logic.toValue (Logic.disjunction left (Logic.truth (← eval r s)))
  | .binary op l r, s => do
      let left ← eval l s
      let right ← eval r s
      Eval.strict op left right
  | .unary op e, s => do Eval.unary op (← eval e s)
  | .call name args, s => do Eval.call name (← evalList args s)
  | .aggregate func arg distinct frame, s =>
      let call := (Expr.aggregate func arg distinct frame).text
      match frame, s.group with
      | some _, _ => .error (.invalidOperation (.windowOutside call))
      | none, none => .error (.invalidOperation (.aggregateOutside call))
      | none, some members => do Aggregate.compute func distinct (← evalArg arg s members)
  | .between negated e low high, s => do
      let v ← eval e s
      let low ← eval low s
      let high ← eval high s
      return Logic.negateIf negated (Eval.between v low high)
  | .inList negated e items, s => do
      let v ← eval e s
      if v.isNull then return Logic.negateIf negated .null
      else return Logic.negateIf negated (Logic.toValue (← evalMember items s v (some false)))
  | .like negated e pattern, s => do
      return Logic.negateIf negated (Eval.like (← eval e s) pattern)
  termination_by structural e => e

def evalList : List Expr → Scope → Outcome (List Value)
  | [], _ => .ok []
  | e :: es, s => do
      let v ← eval e s
      let vs ← evalList es s
      return v :: vs
  termination_by structural es => es

/-- The inputs of an aggregate, one for each member of the group. -/
def evalArg : Option Expr → Scope → List Composition → Outcome (List Value)
  | none, _, members => .ok (members.map fun _ => .boolean true)
  | some e, s, members => members.mapM fun m => eval e (s.member m)
  termination_by structural a => a

/-- Whether a value is among the items, given what the earlier ones left open. Items after the first
match are not evaluated. -/
def evalMember : List Expr → Scope → Value → Option Bool → Outcome (Option Bool)
  | [], _, _, unmatched => .ok unmatched
  | e :: es, s, v, unmatched => do
      let item ← eval e s
      if item.isNull then evalMember es s v none
      else if v.order item = .eq then return some true
      else evalMember es s v unmatched
  termination_by structural es => es

end

/-- Evaluation as a condition; NULL rejects. -/
def holds (e : Expr) (s : Scope) : Outcome Bool := return (← e.eval s).isTruthy

/-- Evaluation as a clause of a statement, whose text stands in a failure. -/
def satisfied (e : Expr) (s : Scope) : Outcome Bool :=
  match e.holds s with
  | .error cause => .error (.condition e.text cause)
  | .ok b => .ok b

end Expr

end RelQuery
