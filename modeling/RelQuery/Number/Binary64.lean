/-! Double precision numbers as their bit patterns. Every finite number is a whole multiple of the
smallest positive one, so `scaled`, that multiple, places it exactly on the number line, with the
infinities just beyond the last finite number on either side. Arithmetic rounds as the hardware
does; the remainder is exact. -/
namespace RelQuery

structure Binary64 where
  bits : UInt64
  deriving DecidableEq, Repr, Inhabited

namespace Binary64

def powerOfTwo (n : Nat) : Nat := Nat.pow 2 n

/-- The weight of the lowest exponent bit, which is also that of the leading bit of a magnitude. -/
def hiddenBit : Nat := powerOfTwo 52

def signBit : Nat := powerOfTwo 63

def negative (x : Binary64) : Bool := x.bits.toNat / signBit == 1

def exponentField (x : Binary64) : Nat := x.bits.toNat / hiddenBit % 2048

def fraction (x : Binary64) : Nat := x.bits.toNat % hiddenBit

def isNaN (x : Binary64) : Bool := x.exponentField == 2047 && x.fraction != 0

def isInfinite (x : Binary64) : Bool := x.exponentField == 2047 && x.fraction == 0

def significand (x : Binary64) : Nat :=
  if x.exponentField = 0 then x.fraction else hiddenBit + x.fraction

/-- The absolute value in units of 2⁻¹⁰⁷⁴. -/
def magnitude (x : Binary64) : Nat := x.significand <<< (x.exponentField - 1)

/-- The value in units of 2⁻¹⁰⁷⁴, of a number that is not NaN. -/
def scaled (x : Binary64) : Int :=
  if x.negative then -(x.magnitude : Int) else x.magnitude

def unit : Nat := powerOfTwo 1074

def isZero (x : Binary64) : Bool := x.magnitude == 0

def nan : Binary64 := ⟨0x7ff8000000000000⟩

def negativeZero : Binary64 := ⟨0x8000000000000000⟩

def zero : Binary64 := ⟨0⟩

/-- The number with the given sign and magnitude, cut toward zero where it has too many bits. -/
def ofMagnitude (negative : Bool) (m : Nat) : Binary64 :=
  let sign := if negative then signBit else 0
  let body :=
    if m < hiddenBit then m
    else
      let excess := Nat.log2 m - 52
      (excess + 1) * hiddenBit + (m / powerOfTwo excess - hiddenBit)
  ⟨(sign + body).toUInt64⟩

def toFloat (x : Binary64) : Float := Float.ofBits x.bits

def ofFloat (f : Float) : Binary64 := ⟨f.toBits⟩

def neg (x : Binary64) : Binary64 := ⟨x.bits ^^^ 0x8000000000000000⟩

def abs (x : Binary64) : Binary64 := ⟨x.bits &&& 0x7fffffffffffffff⟩

def add (x y : Binary64) : Binary64 := ofFloat (x.toFloat + y.toFloat)

def sub (x y : Binary64) : Binary64 := ofFloat (x.toFloat - y.toFloat)

def mul (x y : Binary64) : Binary64 := ofFloat (x.toFloat * y.toFloat)

def div (x y : Binary64) : Binary64 := ofFloat (x.toFloat / y.toFloat)

def sqrt (x : Binary64) : Binary64 := ofFloat x.toFloat.sqrt

def exp (x : Binary64) : Binary64 := ofFloat x.toFloat.exp

def log (x : Binary64) : Binary64 := ofFloat x.toFloat.log

/-- The remainder of the quotient cut toward zero. It is exact and has the sign of the dividend. -/
def rem (x y : Binary64) : Binary64 :=
  if x.isNaN || y.isNaN || x.isInfinite || y.isZero then nan
  else if y.isInfinite then x
  else ofMagnitude x.negative (x.magnitude % y.magnitude)

end Binary64

end RelQuery
