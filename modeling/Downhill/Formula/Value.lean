import Downhill.Formula.Token
import Downhill.Formula.Variables

/-!
# Values of token lists

A token list in reverse Polish order is computed on a stack: operands are pushed, an operator takes
the two topmost values and pushes its result, and one value is left at the end. A list that goes
otherwise is stuck, as is a variable without a value.
-/

namespace Downhill

/-- Why a token list has no value. -/
inductive Stuck
  /-- The variable has no value. -/
  | unbound (name : String)
  /-- With so many values on the stack the list cannot go on, or cannot end. -/
  | malformed (depth : Nat)
  deriving DecidableEq, Repr

/-- The reason in words. -/
def Stuck.message : Stuck → String
  | unbound name => "unbound variable `" ++ name ++ "`"
  | malformed depth => s!"malformed expression: {depth} values on the stack"

/-- Values of variables, by name. A variable may have none. -/
abbrev Bindings := String → Option Float

namespace Bindings

/-- Values listed by name. Of a name that is listed again the first value counts. -/
def ofList (pairs : List (String × Float)) : Bindings :=
  fun name => (pairs.find? (·.1 = name)).map (·.2)

/-- Values set one after the other. Of a name that is set again the last value counts. -/
def ofUpdates (pairs : List (String × Float)) : Bindings :=
  ofList pairs.reverse

/-- The coordinates of a point. Variables beyond the last coordinate have no value. -/
def ofPoint (unknowns : Variables) (point : List Float) : Bindings :=
  fun name => (unknowns.position? name).bind (point[·]?)

end Bindings

namespace Polish

/-- The stack, topmost value first, after one more token. -/
def push (bindings : Bindings) (token : Token) (stack : List Float) :
    Except Stuck (List Float) :=
  match token with
  | .number value => .ok (value :: stack)
  | .var name =>
    match bindings name with
    | some value => .ok (value :: stack)
    | none => .error (.unbound name)
  | .operator op =>
    match stack with
    | b :: a :: rest => .ok (op.apply a b :: rest)
    | _ => .error (.malformed stack.length)
  | .leftParen | .rightParen => .error (.malformed stack.length)

/-- The stack after a list of tokens. -/
def run (bindings : Bindings) : List Token → List Float → Except Stuck (List Float)
  | [], stack => .ok stack
  | token :: tokens, stack => do
    let next ← push bindings token stack
    run bindings tokens next

/-- The value of a token list in reverse Polish order. -/
def value (bindings : Bindings) (tokens : List Token) : Except Stuck Float := do
  match ← run bindings tokens [] with
  | [value] => return value
  | stack => throw (.malformed stack.length)

end Polish

end Downhill
