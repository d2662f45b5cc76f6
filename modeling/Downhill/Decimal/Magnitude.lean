/-!
# Magnitudes of doubles

A finite double is a sign and a natural number times a power of two. This module reads both off the
bits, so that what is said of the written form of a double can be computed exactly, in natural
numbers.
-/

namespace Downhill.Decimal

/-- The bits carry a minus sign. -/
def isSigned (x : Float) : Bool :=
  x.toBits >>> 63 == 1

/-- The absolute value of a finite double, `significand * 2 ^ exponent`. -/
structure Magnitude where
  /-- The factor, below `2 ^ 53`. -/
  significand : Nat
  /-- The power of two. -/
  exponent : Int
  /-- The next smaller double is half as far away as the next greater one. That is so at the powers
  of two, where the exponent changes, and decides which reals below round to the double. -/
  narrowBelow : Bool
  deriving DecidableEq, Repr

/-- What the leading bit of a significand counts, `2 ^ 52`. It is not stored. -/
def hiddenBit : Nat := 0x10000000000000

/-- The magnitude of a finite double. A double with no exponent bits has the least exponent and no
hidden bit. -/
def Magnitude.ofFloat (x : Float) : Magnitude :=
  let bits := x.toBits.toNat
  let fraction : Nat := bits % hiddenBit
  let biased : Nat := bits / hiddenBit % 2048
  if biased = 0 then ⟨fraction, -1074, false⟩
  else ⟨hiddenBit + fraction, (biased : Int) - 1075, fraction = 0 && 1 < biased⟩

end Downhill.Decimal
