import Downhill.Decimal.Numeral
import Downhill.Formula.Defect
import Downhill.Formula.Token
import Downhill.Text.Blank
import Downhill.Text.Lowercase

/-!
# From text to tokens

Blanks are dropped and letters made small before anything else, so `1 2` is the number twelve and
`X1` the variable `x1`. What is left is cut at the operators and parentheses. The runs of other
characters between them have to be numbers or variables, each run as a whole; the leftmost one that
is neither is the defect of the text.
-/

namespace Downhill

/-- A text without its blanks and in small letters. -/
def condense (text : String) : List Char :=
  (text.toList.filter (!Text.isBlank ·)).flatMap Text.lowercase

/-- The token of a character that ends a run: an operator or a parenthesis. -/
def separator? : Char → Option Token
  | '(' => some .leftParen
  | ')' => some .rightParen
  | c => (Operator.ofSymbol? c).map .operator

/-- A piece of a text that is cut at its separators. -/
inductive Piece
  /-- A separator, as its token. -/
  | separator (token : Token)
  /-- The characters between two separators. -/
  | run (chars : List Char)

/-- A text cut at its separators. Two runs never stand side by side. -/
def cut : List Char → List Piece
  | [] => []
  | c :: cs =>
    match separator? c with
    | some token => .separator token :: cut cs
    | none =>
      match cut cs with
      | .run chars :: pieces => .run (c :: chars) :: pieces
      | pieces => .run [c] :: pieces

/-- The run is the name of a variable: `x` and at least one digit. -/
def isVariableName : List Char → Bool
  | 'x' :: d :: ds => (d :: ds).all Decimal.isDigit
  | _ => false

/-- The token of a run, if it is a number or a variable. -/
def operand? (chars : List Char) : Option Token :=
  if isVariableName chars then some (.var (String.ofList chars))
  else (Decimal.readNumeral? chars).map .number

/-- The token of a piece. -/
def Piece.token : Piece → Except Defect Token
  | separator token => .ok token
  | run chars =>
    match operand? chars with
    | some token => .ok token
    | none => .error (.unrecognized (String.ofList chars))

/-- The tokens of a text, or its leftmost run that is none. -/
def scan (text : String) : Except Defect (List Token) :=
  (cut (condense text)).mapM Piece.token

end Downhill
