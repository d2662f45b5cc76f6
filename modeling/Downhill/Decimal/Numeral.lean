/-!
# Numerals

The decimal numbers of formulas: digits with at most one point among them, and at least one digit.
A point may end the numeral or begin it. There is no sign and no exponent.
-/

namespace Downhill.Decimal

/-- One of the ten digits. -/
def isDigit (c : Char) : Bool := '0' ≤ c && c ≤ '9'

/-- The natural number that digits spell after the number `n`. -/
def natOfDigits (n : Nat) (ds : List Char) : Nat :=
  ds.foldl (fun n d => 10 * n + (d.toNat - '0'.toNat)) n

theorem natOfDigits_append (n : Nat) (ds es : List Char) :
    natOfDigits n (ds ++ es) = natOfDigits (natOfDigits n ds) es :=
  List.foldl_append

/-- Digits, and what is behind them, if that does not begin with a digit. -/
theorem span_isDigit {ds : List Char} (hds : ∀ d ∈ ds, isDigit d = true) (rest : List Char)
    (hrest : ∀ c ∈ rest.head?, isDigit c = false) :
    (ds ++ rest).takeWhile isDigit = ds ∧ (ds ++ rest).dropWhile isDigit = rest := by
  rw [List.takeWhile_append_of_pos hds, List.dropWhile_append_of_pos hds]
  cases rest with
  | nil => simp
  | cons c rest => simp [hrest c rfl]

/-- The double nearest to a numeral, or nothing for a text that is no numeral. A numeral beyond the
greatest double is infinite. -/
def readNumeral? (cs : List Char) : Option Float :=
  let whole := cs.takeWhile isDigit
  match cs.dropWhile isDigit with
  | [] => if whole.isEmpty then none else some (.ofScientific (natOfDigits 0 whole) true 0)
  | '.' :: fraction =>
    if fraction.all isDigit && !(whole.isEmpty && fraction.isEmpty) then
      some (.ofScientific (natOfDigits (natOfDigits 0 whole) fraction) true fraction.length)
    else none
  | _ => none

example : readNumeral? "10.25".toList = some 10.25 ∧ readNumeral? "5.".toList = some 5
    ∧ readNumeral? ".5".toList = some 0.5 ∧ readNumeral? ".".toList = none
    ∧ readNumeral? "1.2.3".toList = none ∧ readNumeral? "1e5".toList = none := by
  decide +kernel

end Downhill.Decimal
