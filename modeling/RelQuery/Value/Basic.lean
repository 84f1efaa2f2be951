import RelQuery.Number.Integer

/-! The values that cells hold and expressions produce. Equality and order are those of queries, not
of representations: integers and doubles compare by their exact real values, zero has one value
under either sign, and every NaN equals every other and exceeds every number. Values of different
kinds are ordered by kind. -/
namespace RelQuery

inductive DataType where
  | boolean
  | int64
  | float64
  | string
  | dateTime
  | bytes
  deriving DecidableEq, Repr

namespace DataType

def isInteger : DataType → Bool
  | int64 | dateTime => true
  | _ => false

def isNumeric : DataType → Bool
  | int64 | float64 => true
  | _ => false

def isIndexable : DataType → Bool
  | bytes => false
  | _ => true

end DataType

inductive Value where
  | null
  | boolean (b : Bool)
  | int (n : Int64)
  | float (x : Binary64)
  | string (s : String)
  /-- Milliseconds since the epoch. -/
  | dateTime (n : Int64)
  | bytes (bs : List UInt8)
  deriving DecidableEq, Repr, Inhabited

/-- The values of some columns of a row, in column order. -/
abbrev Key := List Value

namespace Value

def dataType : Value → Option DataType
  | null => none
  | boolean _ => some .boolean
  | int _ => some .int64
  | float _ => some .float64
  | string _ => some .string
  | dateTime _ => some .dateTime
  | bytes _ => some .bytes

def isNull : Value → Bool
  | null => true
  | _ => false

def isNumeric : Value → Bool
  | int _ | float _ => true
  | _ => false

def boolean? : Value → Option Bool
  | boolean b => some b
  | _ => none

def string? : Value → Option String
  | string s => some s
  | _ => none

/-- The number nearest to a numeric value. -/
def float? : Value → Option Binary64
  | int n => some (.ofInt64 n)
  | float x => some x
  | _ => none

/-- Whether a value passes as a condition: NULL, false, zero and empty texts do not. -/
def isTruthy : Value → Bool
  | null => false
  | boolean b => b
  | int n => n != 0
  | float x => !x.isZero
  | string s => !s.isEmpty
  | dateTime _ => true
  | bytes bs => !bs.isEmpty

/-- Equality of values in queries. -/
def same : Value → Value → Bool
  | null, null => true
  | boolean a, boolean b => a == b
  | int a, int b => a == b
  | int a, float b => b.integer? == some a
  | float a, int b => a.integer? == some b
  | float a, float b =>
      if a.isNaN || b.isNaN then a.isNaN && b.isNaN else a.scaled == b.scaled
  | string a, string b => a == b
  | dateTime a, dateTime b => a == b
  | bytes a, bytes b => a == b
  | _, _ => false

def rank : Value → Nat
  | null => 0
  | boolean _ => 1
  | int _ | float _ => 2
  | string _ => 3
  | dateTime _ => 4
  | bytes _ => 5

/-- An integer is compared as a double only with a number that has a fraction. -/
def orderIntFloat (a : Int64) (b : Binary64) : Ordering :=
  if b.isNaN || Binary64.integerLimit.scaled ≤ b.scaled then .lt
  else if b.scaled < -Binary64.integerLimit.scaled then .gt
  else
    match b.integer? with
    | some n => compare a.toInt n.toInt
    | none => compare (Binary64.ofInt64 a).scaled b.scaled

def orderFloats (a b : Binary64) : Ordering :=
  match a.isNaN, b.isNaN with
  | true, true => .eq
  | true, false => .gt
  | false, true => .lt
  | false, false => compare a.scaled b.scaled

def order : Value → Value → Ordering
  | boolean a, boolean b => compare a b
  | int a, int b => compare a.toInt b.toInt
  | int a, float b => orderIntFloat a b
  | float a, int b => (orderIntFloat b a).swap
  | float a, float b => orderFloats a b
  | string a, string b => compare a b
  | dateTime a, dateTime b => compare a.toInt b.toInt
  | bytes a, bytes b => List.compareLex compare a b
  | a, b => compare a.rank b.rank

end Value

namespace Key

/-- Equality of keys in queries: the same number of columns, each with the same value. -/
def same : Key → Key → Bool
  | [], [] => true
  | a :: as, b :: bs => a.same b && same as bs
  | _, _ => false

/-- The order of keys, column by column; a key comes before its extensions. -/
def order : Key → Key → Ordering := List.compareLex Value.order

def hasNull (key : Key) : Bool := key.any Value.isNull

end Key

end RelQuery
