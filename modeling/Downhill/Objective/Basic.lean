import Downhill.Formula.Table

/-!
# Objectives

What is minimized: a function of points of one dimension. An objective is asked for one value after
the other, and may answer a call by its number as well as by the point, which is how an objective
that fails now and then is described. A value need not be finite; how such values rank is up to the
search.
-/

namespace Downhill

/-- A point, by its coordinates. -/
abbrev Point := List Float

/-- Why an objective has no value at a point. -/
inductive Fault
  /-- The point has another dimension than the objective. -/
  | dimension (expected actual : Nat)
  /-- The formula behind the objective is stuck. -/
  | stuck (why : Stuck)
  deriving DecidableEq, Repr

/-- The fault in words. -/
def Fault.message : Fault → String
  | dimension expected actual => s!"invalid dimensionality: expected {expected}, got {actual}"
  | stuck why => "evaluation failed: " ++ why.message

/-- A function to be minimized. -/
structure Objective where
  /-- The number of coordinates of its points. -/
  dim : Nat
  /-- The answer to a call, from the number of the call, counted from one, and the point. -/
  apply : (call : Nat) → Point → Except Fault Float

namespace Objective

/-- The objective of a function that is asked at points of the right dimension only and answers
every call at a point alike. -/
def ofFunction (dim : Nat) (value : Point → Except Fault Float) : Objective where
  dim := dim
  apply _ p := if p.length = dim then value p else .error (.dimension dim p.length)

/-- The objective that a formula describes: its variables are the coordinates, in order. -/
def ofFormula (f : Formula) : Objective :=
  ofFunction f.dim fun p => (f.value (.ofPoint f.unknowns p)).mapError .stuck

/-- The objective that a formula describes whose variables are in a table. -/
def ofTabled (f : Formula.Tabled) : Objective :=
  ofFunction f.dim fun p => (f.value (.ofTable f.unknowns p)).mapError .stuck

/-- The same objective, failing on the calls listed: call `k` is then stuck at depth `k`. -/
def failingOn (f : Objective) (calls : List Nat) : Objective where
  dim := f.dim
  apply k p := if k ∈ calls then .error (.stuck (.malformed k)) else f.apply k p

/-- A point of another dimension is refused. -/
theorem apply_ofFunction_of_length_ne {dim : Nat} {value : Point → Except Fault Float} {k : Nat}
    {p : Point} (h : p.length ≠ dim) :
    (ofFunction dim value).apply k p = .error (.dimension dim p.length) := by
  simp [ofFunction, h]

end Objective

end Downhill
