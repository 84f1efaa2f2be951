import RelQuery.Error
import RelQuery.Expr.Basic
import RelQuery.Grouping

/-! Aggregates of a list of values. NULL inputs are skipped, and repeated ones too when the call is
distinct. Integers sum exactly and must fit in 64 bits; any other input makes the sum a double. Sums
of doubles run from the left, from negative zero. -/
namespace RelQuery

namespace Value

def int? : Value → Option Int64
  | .int n => some n
  | _ => none

/-- An integer as a value, when 64 bits hold it. -/
def ofInt? (n : Int) : Option Int64 :=
  if Int64.minValue.toInt ≤ n ∧ n ≤ Int64.maxValue.toInt then some (Int64.ofInt n) else none

def number (v : Value) : Outcome Binary64 :=
  match v.float? with
  | some x => .ok x
  | none => .error (.typeMismatch "numeric" v)

end Value

namespace Aggregate

def sumFloats (xs : List Binary64) : Binary64 := xs.foldl Binary64.add .negativeZero

def count (n : Nat) : Binary64 := .ofInt64 (Int64.ofNat n)

def mean (xs : List Binary64) : Binary64 := (sumFloats xs).div (count xs.length)

/-- The running total of integers, which must fit after every step. -/
def sumInts : Int64 → List Int64 → Option Int64
  | total, [] => some total
  | total, n :: ns => (Value.ofInt? (total.toInt + n.toInt)).bind (sumInts · ns)

def sum (vs : List Value) : Outcome Value :=
  if vs.isEmpty then .ok .null
  else
    match vs.mapM Value.int? with
    | some ns =>
        match sumInts 0 ns with
        | some total => .ok (.int total)
        | none => .error (.invalidOperation .sumOverflow)
    | none => return .float (sumFloats (← vs.mapM Value.number))

/-- Applies a statistic to the numbers, of which there has to be one. -/
def statistic (f : List Binary64 → Binary64) (xs : List Binary64) : Value :=
  if xs.isEmpty then .null else .float (f xs)

def variance (xs : List Binary64) : Binary64 :=
  let m := mean xs
  (sumFloats (xs.map fun x => (x.sub m).mul (x.sub m))).div (count xs.length)

def geometricMean (xs : List Binary64) : Binary64 :=
  ((sumFloats (xs.map Binary64.log)).div (count xs.length)).exp

/-- The earliest of the least values. -/
def least : List Value → Value
  | [] => .null
  | v :: vs => vs.foldl (fun best v => if best.order v == .gt then v else best) v

/-- The latest of the greatest values. -/
def greatest : List Value → Value
  | [] => .null
  | v :: vs => vs.foldl (fun best v => if best.order v == .gt then best else v) v

def positive (x : Binary64) : Bool := !x.isNaN && 0 < x.scaled

def compute (func : AggregateFunc) (distinct : Bool) (inputs : List Value) : Outcome Value :=
  let present := inputs.filter (!·.isNull)
  let vs := if distinct then Grouping.firsts Value.order present else present
  match func with
  | .count => .ok (.int (Int64.ofNat vs.length))
  | .sum => sum vs
  | .avg => return statistic mean (← vs.mapM Value.number)
  | .min => .ok (least vs)
  | .max => .ok (greatest vs)
  | .stdDev => return statistic (fun xs => (variance xs).sqrt) (← vs.mapM Value.number)
  | .geoMean => return statistic geometricMean ((← vs.mapM Value.number).filter positive)
  | .rowNumber | .rank | .denseRank => .error (.invalidOperation (.windowRequired func.name))

end Aggregate

end RelQuery
