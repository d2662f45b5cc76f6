import Downhill.Decimal.Layout
import Downhill.Decimal.Numeral

/-!
# Numbers of JSON

A number without fraction and exponent is an integer as long as it fits into 64 bits, with or
without a sign as it is written. Every other number is a double.

The double is the one nearest to what is written, however many digits there are, and a half goes to
the even side. A number that is nearest to zero is zero, with its sign. A number beyond the greatest
double is out of range.
-/

namespace Downhill.Json

open Decimal (natOfDigits)

/-- A number as it is written. -/
structure Numeral where
  /-- There is a minus sign. -/
  negative : Bool
  /-- The digits before the point. -/
  whole : List Char
  /-- The digits behind the point, none if there is no point. -/
  fraction : List Char
  /-- The exponent, if there is one. -/
  exponent : Option Int
  deriving DecidableEq, Repr

/-- A number as it is read. -/
inductive Number
  /-- An integer. -/
  | integer (n : Int)
  /-- A double. -/
  | double (x : Float)
  deriving DecidableEq, Repr

/-- The greatest natural number of 64 bits. -/
def maxWord : Nat := UInt64.size - 1

/-- The double nearest to a natural number times a power of ten, unless it is out of range. From
`10 ^ 309` on everything is beyond the greatest double, and below `10 ^ (-324)` everything is
nearest to zero, so a power of ten is computed only between the two. -/
def nearest? (n : Nat) (e : Int) : Option Float :=
  let places := e + (Decimal.digits n).length
  if n = 0 || places < -323 then some 0
  else if 309 < places then none
  else
    let x := Float.ofScientific n (e < 0) e.natAbs
    if x.isInf then none else some x

/-- The double that a numeral stands for, unless it is out of range. -/
def Numeral.double? (n : Numeral) : Option Float :=
  let digits := natOfDigits (natOfDigits 0 n.whole) n.fraction
  let x := nearest? digits (n.exponent.getD 0 - n.fraction.length)
  if n.negative then x.map (-·) else x

/-- The number that a numeral stands for, unless it is out of range. -/
def Numeral.value? (n : Numeral) : Option Number :=
  let m := natOfDigits 0 n.whole
  if n.fraction.isEmpty && n.exponent.isNone then
    if n.negative then
      if 1 ≤ m && Int64.minValue.toInt ≤ -m then some (.integer (-m)) else n.double?.map .double
    else
      if m ≤ maxWord then some (.integer m) else n.double?.map .double
  else n.double?.map .double

/-- Doubles in JSON: from a hundred-thousandth up to sixteen digits before the point without an
exponent, whole numbers with a zero behind the point, every exponent with its sign, and a half to
the even side. -/
def doubleLayout : Decimal.Layout := ⟨.even, some (-5, 15), true, true⟩

/-- A double as it is written. What is no finite number has no number in JSON. -/
def doubleText (x : Float) : String :=
  if x.isFinite then doubleLayout.write x else "null"

example : nearest? 1 23 = some 1e23 ∧ nearest? 24703282292062328 (-340) = some 5e-324
    ∧ nearest? 24703282292062327 (-340) = some 0 ∧ nearest? 1 309 = none
    ∧ nearest? 1 (-99999999999999999999) = some 0 ∧ nearest? 0 99999999999999999999 = some 0 := by
  decide +kernel

example : doubleText 1e16 = "1e+16" ∧ doubleText 1e15 = "1000000000000000.0"
    ∧ doubleText 0.00001 = "0.00001" ∧ doubleText 1.25e-7 = "1.25e-7" := by
  decide +kernel

end Downhill.Json
