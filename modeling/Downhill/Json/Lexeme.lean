import Downhill.Json.Number
import Downhill.Json.Quoted

/-!
# Lexemes of JSON

A JSON text as the list of its lexemes. The list always exists: where the text stops being JSON it
ends in a lexeme that says what is wrong, and this is a fault of the text only if a reader comes so
far.

What is wrong may depend on whether the reader wants to know the value or only where it ends. A
number out of range, or a string with half a character, is nothing to complain of in a field that is
skipped.
-/

namespace Downhill.Json

open Decimal (isDigit natOfDigits)

/-- A lexeme of a JSON text. -/
inductive Lexeme
  /-- An opening brace. -/
  | openBrace
  /-- A closing brace. -/
  | closeBrace
  /-- An opening bracket. -/
  | openBracket
  /-- A closing bracket. -/
  | closeBracket
  /-- A colon. -/
  | colon
  /-- A comma. -/
  | comma
  /-- The word `null`. -/
  | null
  /-- One of the words `true` and `false`. -/
  | bool (b : Bool)
  /-- A number, unless it is out of range. -/
  | number (n : Option Number)
  /-- A string, unless it has half a character. -/
  | string (s : Option String)
  /-- A string at whose inside the text stops being JSON. -/
  | brokenString (whenRead whenSkipped : Fault)
  /-- Any other place where the text stops being JSON. -/
  | broken (whenRead whenSkipped : Fault)
  deriving DecidableEq, Repr

/-- A lexeme and the text behind it. -/
structure Scanned where
  /-- The lexeme. -/
  lexeme : Lexeme
  /-- The text behind it. -/
  rest : List Char

/-- The text stops being JSON here, for every reader alike. -/
def Scanned.stop (f : Fault) : Scanned := ⟨.broken f f, []⟩

/-- White space between lexemes. -/
def isSpace (c : Char) : Bool := c = ' ' || c = '\n' || c = '\t' || c = '\r'

/-- A word, of which the letters given are still to come. -/
def scanWord (x : Lexeme) : List Char → List Char → Scanned
  | [], cs => ⟨x, cs⟩
  | _ :: _, [] => .stop .truncated
  | w :: ws, c :: cs => if c = w then scanWord x ws cs else .stop .malformed

theorem length_scanWord_le (x : Lexeme) (ws cs : List Char) :
    (scanWord x ws cs).rest.length ≤ cs.length := by
  fun_induction scanWord x ws cs with
  | case1 => exact Nat.le_refl _
  | case2 => exact Nat.zero_le _
  | case3 _ _ _ ih => exact Nat.le_succ_of_le ih
  | case4 => exact Nat.zero_le _

/-- A string whose opening quote has been read. -/
def scanString (cs : List Char) : Scanned :=
  let b := body cs
  match b.ending with
  | .ok rest => ⟨.string (joined? b.pieces), rest⟩
  | .error f => ⟨.brokenString (if join b.pieces = .unpaired then .malformed else f) f, []⟩

theorem length_scanString_le (cs : List Char) : (scanString cs).rest.length ≤ cs.length := by
  simp only [scanString]
  split
  · next h => exact length_le_of_body_ending h
  · simp

/-- The text stops being a number where a digit should be. Only a reader that wants the number tells
the end of the text from a wrong character. -/
def Scanned.noDigit (cs : List Char) : Scanned :=
  ⟨.broken (if cs.isEmpty then .truncated else .malformed) .malformed, []⟩

/-- The digits of an exponent, which complete a number. -/
def scanExponentDigits (n : Numeral) (sign : Int) (cs : List Char) : Scanned :=
  let ds := cs.takeWhile isDigit
  if ds.isEmpty then .noDigit cs
  else ⟨.number { n with exponent := some (sign * natOfDigits 0 ds) }.value?,
    cs.dropWhile isDigit⟩

/-- The exponent of a number, if it has one. -/
def scanExponent (n : Numeral) : List Char → Scanned
  | c :: cs =>
    if c = 'e' || c = 'E' then
      match cs with
      | '+' :: ds => scanExponentDigits n 1 ds
      | '-' :: ds => scanExponentDigits n (-1) ds
      | ds => scanExponentDigits n 1 ds
    else ⟨.number n.value?, c :: cs⟩
  | [] => ⟨.number n.value?, []⟩

/-- The fraction of a number, if it has one, and what follows. -/
def scanFraction (n : Numeral) : List Char → Scanned
  | '.' :: cs =>
    let ds := cs.takeWhile isDigit
    if ds.isEmpty then .noDigit cs
    else scanExponent { n with fraction := ds } (cs.dropWhile isDigit)
  | cs => scanExponent n cs

/-- A number whose sign, if any, and first digit have been read. No other digit follows a leading
zero. -/
def scanNumber (negative : Bool) (first : Char) (cs : List Char) : Scanned :=
  let ds := cs.takeWhile isDigit
  if first = '0' && !ds.isEmpty then .stop .malformed
  else scanFraction ⟨negative, first :: ds, [], none⟩ (cs.dropWhile isDigit)

private theorem length_dropDigits_le (cs : List Char) :
    (cs.dropWhile isDigit).length ≤ cs.length :=
  (List.dropWhile_sublist _).length_le

theorem length_scanExponentDigits_le (n : Numeral) (sign : Int) (cs : List Char) :
    (scanExponentDigits n sign cs).rest.length ≤ cs.length := by
  have := length_dropDigits_le cs
  simp only [scanExponentDigits]
  split <;> simp_all [Scanned.noDigit]

theorem length_scanExponent_le (n : Numeral) (cs : List Char) :
    (scanExponent n cs).rest.length ≤ cs.length := by
  unfold scanExponent
  split
  · split
    · split
      · exact Nat.le_trans (length_scanExponentDigits_le ..)
          (by simp only [List.length_cons]; omega)
      · exact Nat.le_trans (length_scanExponentDigits_le ..)
          (by simp only [List.length_cons]; omega)
      · exact Nat.le_trans (length_scanExponentDigits_le ..)
          (by simp only [List.length_cons]; omega)
    · exact Nat.le_refl _
  · exact Nat.le_refl _

theorem length_scanFraction_le (n : Numeral) (cs : List Char) :
    (scanFraction n cs).rest.length ≤ cs.length := by
  unfold scanFraction
  split
  · next cs =>
    have h := length_dropDigits_le cs
    have := length_scanExponent_le { n with fraction := cs.takeWhile isDigit }
      (cs.dropWhile isDigit)
    simp only
    split
    · simp [Scanned.noDigit]
    · simp only [List.length_cons]; omega
  · exact length_scanExponent_le ..

theorem length_scanNumber_le (negative : Bool) (first : Char) (cs : List Char) :
    (scanNumber negative first cs).rest.length ≤ cs.length := by
  simp only [scanNumber]
  split
  · simp [Scanned.stop]
  · exact Nat.le_trans (length_scanFraction_le ..) (length_dropDigits_le cs)

/-- A number whose minus sign has been read. -/
def scanNegative : List Char → Scanned
  | [] => .noDigit []
  | c :: cs => if isDigit c then scanNumber true c cs else .stop .malformed

theorem length_scanNegative_le (cs : List Char) : (scanNegative cs).rest.length ≤ cs.length := by
  unfold scanNegative
  split
  · simp [Scanned.noDigit]
  · split
    · exact Nat.le_trans (length_scanNumber_le ..) (by simp)
    · simp [Scanned.stop]

/-- The lexeme that begins with a character. -/
def scanLexeme (c : Char) (cs : List Char) : Scanned :=
  match c with
  | '{' => ⟨.openBrace, cs⟩
  | '}' => ⟨.closeBrace, cs⟩
  | '[' => ⟨.openBracket, cs⟩
  | ']' => ⟨.closeBracket, cs⟩
  | ':' => ⟨.colon, cs⟩
  | ',' => ⟨.comma, cs⟩
  | '"' => scanString cs
  | 'n' => scanWord .null ['u', 'l', 'l'] cs
  | 't' => scanWord (.bool true) ['r', 'u', 'e'] cs
  | 'f' => scanWord (.bool false) ['a', 'l', 's', 'e'] cs
  | '-' => scanNegative cs
  | c => if isDigit c then scanNumber false c cs else .stop .malformed

theorem length_scanLexeme_le (c : Char) (cs : List Char) :
    (scanLexeme c cs).rest.length ≤ cs.length := by
  unfold scanLexeme
  split
  any_goals exact Nat.le_refl _
  any_goals exact length_scanWord_le ..
  · exact length_scanString_le cs
  · exact length_scanNegative_le cs
  · split
    · exact length_scanNumber_le ..
    · simp [Scanned.stop]

/-- The lexemes of a text. -/
def lexemes : List Char → List Lexeme
  | [] => []
  | c :: cs =>
    if isSpace c then lexemes cs
    else (scanLexeme c cs).lexeme :: lexemes (scanLexeme c cs).rest
termination_by cs => cs.length
decreasing_by
  · simp
  · exact Nat.lt_succ_of_le (length_scanLexeme_le c cs)

end Downhill.Json
