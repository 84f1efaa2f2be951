import RelQuery.Number.Shortest

/-! Written forms of doubles. Both forms use the shortest digits. The plain form is positional
throughout; the marked form always shows that the number is not an integer, by a point or by an
exponent. -/
namespace RelQuery.Binary64

structure Layout where
  /-- Whether whole numbers keep a zero after the point. -/
  wholePoint : Bool
  /-- The powers of ten from which, and up to which, a leading digit is written positionally. -/
  positional : Option (Int × Int)

def plain : Layout := ⟨false, none⟩

def marked : Layout := ⟨true, some (-4, 16)⟩

/-- The power of ten of the leading digit. -/
def Decimal.leading (d : Decimal) : Int := digitCount d.digits - 1 + d.exponent

def positionalText (layout : Layout) (d : Decimal) : List Char :=
  let digits := Nat.toDigits 10 d.digits
  if 0 ≤ d.exponent then
    digits ++ List.replicate d.exponent.toNat '0' ++ if layout.wholePoint then ['.', '0'] else []
  else
    let places := (-d.exponent).toNat
    let padded := List.replicate (places + 1 - digits.length) '0' ++ digits
    let (whole, part) := padded.splitAt (padded.length - places)
    whole ++ '.' :: part

def exponentText (d : Decimal) : List Char :=
  let tail := match Nat.toDigits 10 d.digits with
    | [] => []
    | [c] => [c]
    | c :: rest => c :: '.' :: rest
  tail ++ 'e' :: (toString d.leading).toList

def magnitudeText (layout : Layout) (x : Binary64) : List Char :=
  let d := if x.isZero then ⟨0, 0⟩ else x.shortest
  match layout.positional with
  | none => positionalText layout d
  | some (low, high) =>
      if x.isZero || low ≤ d.leading && d.leading < high then positionalText layout d
      else exponentText d

def text (layout : Layout) (x : Binary64) : String :=
  if x.isNaN then "NaN"
  else
    let body := if x.isInfinite then "inf".toList else magnitudeText layout x
    String.ofList (if x.negative then '-' :: body else body)

end RelQuery.Binary64
