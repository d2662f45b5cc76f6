import Downhill.Descent

/-!
# Queries and their outcomes

A query asks for the minimum of a formula. Its outcome is the minimum found or the reason why there
is none.
-/

namespace Downhill

/-- A request to minimize a formula. -/
structure Query where
  /-- The text of the formula. -/
  function : String
  /-- How far apart the values of the simplex may be at the end. Positive and finite. -/
  tolerance : Float
  /-- How many iterations there may be. Positive. -/
  maxIterations : Int64
  deriving DecidableEq, Repr

/-- A variable and its value. -/
structure Coordinate where
  /-- The name of the variable. -/
  name : String
  /-- Its value. -/
  value : Float
  deriving DecidableEq, Repr

/-- A minimum that has been found. -/
structure Minimum where
  /-- Where it lies, by the variables in the order of their first appearance. -/
  coordinates : List Coordinate
  /-- The value there. -/
  value : Float
  deriving DecidableEq, Repr

/-- The value of a variable at the minimum. Of a name that is listed again the first counts. -/
def Minimum.coordinate? (m : Minimum) (name : String) : Option Float :=
  (m.coordinates.find? (·.name = name)).map Coordinate.value

/-- Why a query has no minimum for an answer. -/
inductive Refusal
  /-- The text is no formula. -/
  | notAFormula (defect : Defect)
  /-- The tolerance is not a positive finite number. -/
  | badTolerance (tolerance : Float)
  /-- The number of iterations is not positive. -/
  | badLimit (maxIterations : Int64)
  /-- The iterations were used up before the tolerance was met. The best value is given. -/
  | unconverged (iterations : Nat) (value : Float)
  /-- The query was cancelled. -/
  | cancelled (iterations : Nat)
  /-- An iteration failed. -/
  | faulty (why : Failure)
  deriving DecidableEq, Repr

/-- What a refusal means to the one who asked. -/
inductive Refusal.Class
  /-- The query itself is wrong. -/
  | wrongQuery
  /-- The formula, the tolerance and the number of iterations do not go together. -/
  | noConvergence
  /-- The query was called back. -/
  | calledBack
  /-- The search is broken. -/
  | brokenSearch
  deriving DecidableEq, Repr

namespace Refusal

/-- The class of a refusal. -/
def kind : Refusal → Class
  | notAFormula _ | badTolerance _ | badLimit _ => .wrongQuery
  | unconverged .. => .noConvergence
  | cancelled _ => .calledBack
  | faulty _ => .brokenSearch

/-- The message of what lies behind the refusal, where something does. -/
def source : Refusal → Option String
  | notAFormula defect => some defect.message
  | faulty why => some why.message
  | _ => none

/-- The refusal in words. -/
def message : Refusal → String
  | notAFormula defect => "invalid function: " ++ defect.message
  | badTolerance tolerance => "tolerance must be positive, got " ++ Decimal.plain tolerance
  | badLimit n =>
    "maximum number of iterations must be positive, got " ++ toString n.toInt
  | unconverged iterations value =>
    s!"did not converge in {iterations} iterations (best value " ++ Decimal.plain value ++ ")"
  | cancelled iterations => s!"cancelled after {iterations} iterations"
  | faulty why => "internal fault: " ++ why.message

end Refusal

end Downhill
