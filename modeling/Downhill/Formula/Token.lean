import Downhill.Decimal.Layout
import Downhill.Formula.Operator

/-!
# Tokens

The words a formula is made of: numbers, variables, operators and parentheses.
-/

namespace Downhill

/-- A word of a formula. Numbers are compared as doubles are, by value. -/
inductive Token
  /-- A number. -/
  | number (value : Float)
  /-- A variable, by its name. -/
  | var (name : String)
  /-- A binary operator. -/
  | operator (op : Operator)
  /-- An opening parenthesis. -/
  | leftParen
  /-- A closing parenthesis. -/
  | rightParen
  deriving BEq, Repr

namespace Token

/-- The token is a value by itself: a number or a variable. -/
def isOperand : Token → Bool
  | number _ | var _ => true
  | _ => false

/-- The token is a parenthesis. -/
def isParen : Token → Bool
  | leftParen | rightParen => true
  | _ => false

/-- The name, if the token is a variable. -/
def name? : Token → Option String
  | var name => some name
  | _ => none

/-- The names in a token list are those of its variables. -/
theorem mem_filterMap_name? {tokens : List Token} {x : String} :
    x ∈ tokens.filterMap name? ↔ .var x ∈ tokens := by
  rw [List.mem_filterMap]
  constructor
  · rintro ⟨token, hmem, hname⟩
    cases token <;> simp only [name?, reduceCtorEq, Option.some.injEq] at hname
    exact hname ▸ hmem
  · intro hmem
    exact ⟨.var x, hmem, rfl⟩

/-- The token as it is shown. -/
def text : Token → String
  | number value => Decimal.plain value
  | var name => name
  | operator op => op.symbol.toString
  | leftParen => "("
  | rightParen => ")"

end Token

end Downhill
