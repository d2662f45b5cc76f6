import Downhill.Formula.Token
import Downhill.Misuse

/-!
# Variables of a formula

The distinct variables of a token list in the order of their first appearance. This order is the
order of the coordinates of a point.
-/

namespace Downhill

/-- Distinct names in the order of their first appearance. -/
structure Variables where
  /-- The names. -/
  names : List String
  deriving DecidableEq, Repr

namespace Variables

/-- The variables that occur in a token list. -/
def ofTokens (tokens : List Token) : Variables :=
  ⟨(tokens.filterMap Token.name?).eraseDups⟩

/-- The number of variables. -/
def size (vs : Variables) : Nat := vs.names.length

/-- There is no variable. -/
def isEmpty (vs : Variables) : Bool := vs.names.isEmpty

/-- The coordinate of a variable. -/
def position? (vs : Variables) (name : String) : Option Nat :=
  vs.names.idxOf? name

/-- The variable of a coordinate. -/
def nameAt (vs : Variables) (i : Nat) : Except Misuse String :=
  match vs.names[i]? with
  | some name => .ok name
  | none => .error (.outOfBounds vs.size i)

end Variables

end Downhill
