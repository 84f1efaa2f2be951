import RelQuery.Number.Binary64

/-! The fewest decimal digits that read back as the same double. A double is a whole multiple of a power
of two; where that power is a fraction `2 ^ -k`, the double is also a whole multiple of `10 ^ -k`. So its
decimal neighbours with `n` digits and the interval of reals that round to it are compared in exact
natural numbers. -/
namespace RelQuery.Binary64

/-- The number `digits · 10 ^ exponent`. -/
structure Decimal where
  digits : Nat
  exponent : Int
  deriving DecidableEq, Repr

def digitCount (n : Nat) : Nat := (Nat.toDigits 10 n).length

/-- The power of two of the last place, and so the negated power of ten of the decimal unit. -/
def lastPlace (x : Binary64) : Int := ((x.exponentField - 1 : Nat) : Int) - 1074

/-- The places that the decimal unit stands behind the point. -/
def decimalPlaces (x : Binary64) : Nat := (-x.lastPlace).toNat

/-- The distance to the next double away from zero, in decimal units. -/
def spacing (x : Binary64) : Nat :=
  Nat.pow 5 x.decimalPlaces * powerOfTwo x.lastPlace.toNat

/-- The magnitude in decimal units. -/
def decimal (x : Binary64) : Nat := x.significand * x.spacing

/-- The reals that round to a double, in quarters of the decimal unit. The ends belong to the interval
when the last bit of the double is zero. -/
structure Rounding where
  low : Nat
  high : Nat
  closed : Bool

def Rounding.contains (r : Rounding) (n : Nat) : Bool :=
  if r.closed then r.low ≤ n && n ≤ r.high else r.low < n && n < r.high

def rounding (x : Binary64) : Rounding :=
  let center := 4 * x.decimal
  let below := if x.fraction = 0 && 1 < x.exponentField then x.spacing else 2 * x.spacing
  ⟨center - below, center + 2 * x.spacing, x.fraction % 2 == 0⟩

/-- The nearer of the two neighbours of `value` on a decimal grid that reads back; a tie goes up. -/
def neighbour? (r : Rounding) (value grid : Nat) : Option Nat :=
  let below := value / grid
  let above := below + 1
  match r.contains (4 * (below * grid)), r.contains (4 * (above * grid)) with
  | true, true => some (if value - below * grid < above * grid - value then below else above)
  | true, false => some below
  | false, true => some above
  | false, false => none

def stripZeros (digits : Nat) (exponent : Int) : Decimal :=
  if h : digits ≠ 0 ∧ digits % 10 = 0 then stripZeros (digits / 10) (exponent + 1)
  else ⟨digits, exponent⟩
  termination_by digits
  decreasing_by omega

/-- The number of decimal digits of the magnitude of a double, or one less. -/
def digitEstimate (n : Nat) : Nat := Nat.log2 n * 30103 / 100000 + 1

/-- The grids run from the coarsest that can matter to one with at least seventeen digits, which always
read back, so the search finds a grid. -/
def shortest (x : Binary64) : Decimal :=
  let value := x.decimal
  let bounds := x.rounding
  let size := digitEstimate value
  let grids := (List.range 19).map fun n => size - n
  match grids.findSome? fun g => (neighbour? bounds value (Nat.pow 10 g)).map (g, ·) with
  | some (g, digits) => stripZeros digits (g - x.decimalPlaces)
  | none => stripZeros value (-x.decimalPlaces)

end RelQuery.Binary64
