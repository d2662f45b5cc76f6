/-!
# Operators

The five binary operators of formulas: their signs, how tightly they bind, how a row of them groups,
and what they compute. Arithmetic is that of doubles, so a division by zero is an infinity or no
number and never a failure.
-/

namespace Downhill

/-- How a row of operators of one strength groups. -/
inductive Associativity
  /-- `a ∘ b ∘ c` is `(a ∘ b) ∘ c`. -/
  | left
  /-- `a ∘ b ∘ c` is `a ∘ (b ∘ c)`. -/
  | right
  deriving DecidableEq, Repr

/-- A binary operator. -/
inductive Operator
  /-- The sum, `+`. -/
  | add
  /-- The difference, `-`. -/
  | sub
  /-- The product, `*`. -/
  | mul
  /-- The quotient, `/`. -/
  | div
  /-- The power, `^`. -/
  | pow
  deriving DecidableEq, Repr

namespace Operator

/-- All operators. -/
def all : List Operator := [add, sub, mul, div, pow]

/-- The sign of an operator. -/
def symbol : Operator → Char
  | add => '+'
  | sub => '-'
  | mul => '*'
  | div => '/'
  | pow => '^'

/-- The operator of a sign. -/
def ofSymbol? (c : Char) : Option Operator :=
  all.find? (·.symbol = c)

@[simp] theorem ofSymbol?_symbol (op : Operator) : ofSymbol? op.symbol = some op := by
  cases op <;> rfl

/-- Only the sign of an operator stands for it. -/
theorem ofSymbol?_eq_some_iff {c : Char} {op : Operator} :
    ofSymbol? c = some op ↔ c = op.symbol := by
  constructor
  · intro h
    have := List.find?_some h
    simpa using (of_decide_eq_true this).symm
  · rintro rfl
    exact ofSymbol?_symbol op

/-- How tightly an operator binds: the greater, the tighter. -/
def precedence : Operator → Nat
  | add | sub => 1
  | mul | div => 2
  | pow => 3

/-- How powers group: from the left as all the others, so `2^3^2` is `(2^3)^2`. -/
def powerAssociativity : Associativity := .left

/-- How a row of an operator groups. -/
def associativity : Operator → Associativity
  | pow => powerAssociativity
  | _ => .left

/-- The value of `a ∘ b`. -/
def apply : Operator → Float → Float → Float
  | add, a, b => a + b
  | sub, a, b => a - b
  | mul, a, b => a * b
  | div, a, b => a / b
  | pow, a, b => a.pow b

/-- In `… op … later …`, without parentheses between the two, `op` is computed before `later`. -/
def goesBefore (op later : Operator) : Bool :=
  match later.associativity with
  | .left => later.precedence ≤ op.precedence
  | .right => later.precedence < op.precedence

/-- Since every operator groups from the left, precedence alone decides. -/
theorem goesBefore_iff {op later : Operator} :
    op.goesBefore later = true ↔ later.precedence ≤ op.precedence := by
  cases later <;> simp [goesBefore, associativity, powerAssociativity]

end Operator

end Downhill
