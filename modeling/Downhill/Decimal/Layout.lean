import Downhill.Decimal.Shortest

/-!
# Written doubles

How the shortest decimal of a double is laid out: where the point goes, when an exponent is written,
which of two equally near decimals is taken. A `Layout` is the record of these choices, and
`Layout.write` writes a double by it.

The layout of messages, `Layout.plain`, never has an exponent and writes a whole number without a
point.
-/

namespace Downhill.Decimal

/-- The choices a written form is made of. -/
structure Layout where
  /-- Which of two equally near shortest decimals is taken. -/
  tie : Tie
  /-- The powers of ten, least and greatest, whose leading digit is written without an exponent.
  Without bounds no exponent is ever written. -/
  positional : Option (Int × Int)
  /-- A whole number written without an exponent ends in `.0`. -/
  pointed : Bool
  /-- An exponent that is not negative has a plus sign. -/
  signed : Bool

/-- Doubles in messages: all digits, no exponent, no point where there is nothing behind it, and a
half goes up. -/
def Layout.plain : Layout := ⟨.up, none, false, false⟩

/-- The decimal digits of a natural number. -/
def digits (n : Nat) : List Char := Nat.toDigits 10 n

/-- Digits times a power of ten, without an exponent: missing digits are zeros, and a number below
one has a zero before its point. -/
def positionalText (pointed : Bool) (ds : List Char) : Int → List Char
  | .ofNat e => ds ++ List.replicate e '0' ++ if pointed then ['.', '0'] else []
  | .negSucc k =>
    let places := k + 1
    if places < ds.length then
      ds.take (ds.length - places) ++ '.' :: ds.drop (ds.length - places)
    else
      '0' :: '.' :: (List.replicate (places - ds.length) '0' ++ ds)

/-- Digits and the power of ten of the first of them, which alone stands before the point. -/
def scientificText (signed : Bool) (ds : List Char) (leading : Int) : List Char :=
  let mantissa := match ds with
    | d :: e :: rest => d :: '.' :: e :: rest
    | _ => ds
  let sign := if signed && 0 ≤ leading then ['+'] else []
  mantissa ++ 'e' :: (sign ++ (toString leading).toList)

/-- The text of a decimal. Zero is positional in every layout. -/
def Layout.text (l : Layout) (d : Scaled) : List Char :=
  let ds := digits d.coefficient
  let leading := d.exponent + (ds.length - 1 : Nat)
  let isPositional := d.coefficient = 0 || match l.positional with
    | none => true
    | some (least, greatest) => least ≤ leading && leading ≤ greatest
  if isPositional then positionalText l.pointed ds d.exponent
  else scientificText l.signed ds leading

/-- Messages show no exponents. -/
theorem Layout.text_plain (d : Nat) (k : Int) :
    plain.text ⟨d, k⟩ = positionalText false (digits d) k := by
  simp [text, plain]

/-- A double in its layout. What is no finite number has a name. -/
def Layout.write (l : Layout) (x : Float) : String :=
  if x.isNaN then "NaN"
  else
    let sign := if isSigned x then ['-'] else []
    let body := if x.isFinite then l.text (shortest l.tie (.ofFloat x)) else ['i', 'n', 'f']
    String.ofList (sign ++ body)

/-- A double as messages show it. -/
def plain (x : Float) : String := Layout.plain.write x

example : plain 2 = "2" ∧ plain 0.1 = "0.1" ∧ plain (-0.0) = "-0" ∧ plain 1e23 = "1" ++
    "00000000000000000000000" ∧ plain 1e-7 = "0.0000001" ∧ plain 10.25 = "10.25" := by
  decide +kernel

end Downhill.Decimal
