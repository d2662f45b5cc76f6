import Downhill.Service.Query

/-!
# What a service reports

Every query leaves a list of events, and every event is a line of a level. A point inside a line is
written digit by digit as in messages, except that a coordinate always shows a point or an exponent.
-/

namespace Downhill

/-- How much an event matters. -/
inductive Level
  /-- For those who follow a search closely. -/
  | debug
  /-- The usual course. -/
  | info
  /-- The query had no success. -/
  | warn
  /-- Something is broken. -/
  | error
  deriving DecidableEq, Repr

/-- The name of a level. -/
def Level.name : Level → String
  | debug => "debug"
  | info => "info"
  | warn => "warn"
  | error => "error"

/-- What happens to a query. -/
inductive Event
  /-- The query came in. -/
  | received (query : Query)
  /-- Its text is no formula. -/
  | notCompiled (function : String) (defect : Defect)
  /-- Its text is a formula. -/
  | compiled (function : String) (formula : Formula)
  /-- The search has something to tell. -/
  | searching (note : Note)
  /-- An iteration failed. -/
  | failed (function : String) (why : Failure)
  /-- The query was cancelled. -/
  | cancelled (iterations : Nat)
  /-- The iterations were used up, with the values of the simplex still so far apart. -/
  | notConverged (iterations : Nat) (spread : Float)
  /-- The minimum was found. -/
  | converged (iterations : Nat) (value : Float)
  deriving Repr

/-- Coordinates in lines: from a ten-thousandth up to sixteen digits before the point without an
exponent, and whole numbers with a zero behind the point. -/
def coordinateLayout : Decimal.Layout := ⟨.up, some (-4, 15), true, false⟩

/-- A point in a line. -/
def pointText (p : Point) : String :=
  "[" ++ ", ".intercalate (p.map coordinateLayout.write) ++ "]"

/-- The note as a line. -/
def Note.text : Note → String
  | invalid count total => s!"{count} out of {total} points in initial simplex have invalid value"
  | centroid p => "centroid of simplex: " ++ pointText p
  | performed t best worst =>
    "performed " ++ t.name ++ ",\tf(x) = " ++ Decimal.plain best ++ " - " ++ Decimal.plain worst

namespace Event

/-- The level of an event. -/
def level : Event → Level
  | received _ | converged .. => .info
  | notCompiled .. | compiled .. | searching _ => .debug
  | cancelled _ | notConverged .. => .warn
  | failed .. => .error

/-- The event as a line. -/
def text : Event → String
  | received query =>
    "optimizing `" ++ query.function ++ "` (tolerance = " ++ Decimal.plain query.tolerance
      ++ ", max iterations = " ++ toString query.maxIterations.toInt ++ ")"
  | notCompiled function defect => "cannot compile `" ++ function ++ "`: " ++ defect.message
  | compiled function formula =>
    "compiled `" ++ function ++ "` into `" ++ formula.text ++ "` with "
      ++ toString formula.dim ++ " variable(s)"
  | searching note => note.text
  | failed function why => "optimization of `" ++ function ++ "` failed: " ++ why.message
  | cancelled iterations => s!"optimization cancelled after {iterations} iterations"
  | notConverged iterations spread =>
    s!"optimization did not converge in {iterations} iterations, spread = "
      ++ Decimal.plain spread
  | converged iterations value =>
    s!"converged in {iterations} iterations, f(x) = " ++ Decimal.plain value

end Event

end Downhill
