import Downhill.Service.Event

/-!
# The service

The service answers queries. It checks the tolerance, the number of iterations and the text, in this
order, then descends from the point whose coordinates are all alike until the values of the simplex
are within the tolerance, the iterations are used up or the query is cancelled.

Reaching the tolerance counts before everything else: a descent that has come so far is a success,
also in its last iteration and also if it has been cancelled by then.
-/

namespace Downhill

/-- A service, by its options. -/
structure Service where
  /-- Every coordinate of the starting point. -/
  startingCoordinate : Float := Descent.startingCoordinate
  /-- The options of the search. -/
  search : Options := {}

/-- When a query is found to be cancelled: in the check after an iteration, and once more when the
descent has ended. -/
structure Cancellation where
  /-- The check after an iteration finds the query cancelled. -/
  atCheck : Progress → Bool
  /-- After the end of the descent the query is found cancelled. -/
  atEnd : Progress → Bool

namespace Cancellation

/-- The query is never cancelled. -/
def never : Cancellation := ⟨fun _ => false, fun _ => false⟩

/-- The query is cancelled while the simplex is moved for the `k`-th time, or from the beginning if
`k` is zero. -/
def duringMove (k : Nat) : Cancellation := ⟨fun p => k ≤ p.moves, fun p => k ≤ p.moves⟩

end Cancellation

namespace Query

/-- The tolerance is positive and finite. -/
def hasTolerance (q : Query) : Bool := q.tolerance.isFinite && 0 < q.tolerance

/-- There may be iterations. -/
def hasIterations (q : Query) : Bool := 0 < q.maxIterations

/-- The formula of a query that can be answered, or why it cannot. -/
def formula (q : Query) : Except Refusal Formula :=
  if !q.hasTolerance then .error (.badTolerance q.tolerance)
  else if !q.hasIterations then .error (.badLimit q.maxIterations)
  else (Formula.ofText q.function).mapError .notAFormula

end Query

namespace Service

/-- The descent on a formula, before its first iteration. -/
def descent (s : Service) (f : Formula) : Descent where
  options := s.search.inEffect f.dim
  point := List.replicate f.dim s.startingCoordinate

/-- The criterion that ends a descent. -/
def stops (q : Query) (c : Cancellation) (p : Progress) : Bool :=
  p.spread ≤ q.tolerance || c.atCheck p

/-- The minimum where a descent stands. -/
def minimum (f : Formula) (p : Progress) : Minimum where
  coordinates := List.zipWith Coordinate.mk f.unknowns.names p.point
  value := p.value

/-- The outcome of a descent that has ended, and the event that says so. -/
def conclude (q : Query) (c : Cancellation) (f : Formula) (p : Progress) :
    Except Refusal Minimum × Event :=
  if p.spread ≤ q.tolerance then
    (.ok (minimum f p), .converged p.iterations p.value)
  else if c.atEnd p then
    (.error (.cancelled p.iterations), .cancelled p.iterations)
  else
    (.error (.unconverged p.iterations p.value), .notConverged p.iterations p.spread)

/-- The outcome of a descent on a formula, and its events. -/
def descend (s : Service) (q : Query) (c : Cancellation) (f : Formula) :
    Except Refusal Minimum × List Event :=
  let found := (Descent.run (.ofFormula f) (stops q c) q.maxIterations.toInt.toNat).run
    (s.descent f)
  match found with
  | .ok () d =>
    let (outcome, event) := conclude q c f d.progress
    (outcome, d.search.notes.toList.map .searching ++ [event])
  | .error why d =>
    (.error (.faulty why), d.search.notes.toList.map .searching ++ [.failed q.function why])

/-- The outcome of a query that may be cancelled, and all events on the way. -/
def answer (s : Service) (q : Query) (c : Cancellation) : Except Refusal Minimum × List Event :=
  match q.formula with
  | .error (.notAFormula defect) =>
    (.error (.notAFormula defect), [.received q, .notCompiled q.function defect])
  | .error refusal => (.error refusal, [.received q])
  | .ok f =>
    let (outcome, events) := s.descend q c f
    (outcome, .received q :: .compiled q.function f :: events)

/-- The outcome of a query that may be cancelled. -/
def minimizeUnlessCancelled (s : Service) (q : Query) (c : Cancellation) :
    Except Refusal Minimum :=
  (s.answer q c).1

/-- The outcome of a query. -/
def minimize (s : Service) (q : Query) : Except Refusal Minimum :=
  s.minimizeUnlessCancelled q .never

end Service

/-- The minimum of a formula, by a service without particular options. -/
def minimize (function : String) (tolerance : Float) (maxIterations : Int64) :
    Except Refusal Minimum :=
  ({} : Service).minimize ⟨function, tolerance, maxIterations⟩

end Downhill
