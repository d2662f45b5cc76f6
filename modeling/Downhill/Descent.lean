import Downhill.Simplex.Search

/-!
# Descents

A descent runs a search on one objective from a starting point and keeps the point reached, its
value and the number of iterations. It goes on until a criterion on its progress holds. An iteration
that fails leaves the point, the value and the count as they were.
-/

namespace Downhill

/-- Where a descent stands after an iteration. -/
structure Progress where
  /-- The best point. -/
  point : Point
  /-- The value there. -/
  value : Float
  /-- How far apart the best and the worst value of the simplex are. -/
  spread : Float
  /-- The number of iterations completed. -/
  iterations : Nat
  /-- How many of them moved the simplex. -/
  moves : Nat

/-- A descent on an objective. -/
structure Descent where
  /-- The options in effect. -/
  options : Options
  /-- The search. -/
  search : Search := {}
  /-- The point reached. -/
  point : Point
  /-- The value there, infinite before the first iteration. -/
  value : Float := infinity
  /-- The number of iterations completed. -/
  iterations : Nat := 0
  /-- How many of them moved the simplex. -/
  moves : Nat := 0
  /-- The progress after each completed iteration, in order. -/
  history : Array Progress := #[]

namespace Descent

/-- The name of the method. -/
def methodName : String := "Nelder-Mead"

/-- Every coordinate of the point a descent starts from, unless another one is given. -/
def startingCoordinate : Float := 1

/-- A descent before its first iteration. A starting point that is given has the dimension of the
objective. -/
def start (f : Objective) (o : Options) (point : Option Point) : Except Misuse Descent :=
  match point with
  | none => .ok { options := o.inEffect f.dim, point := List.replicate f.dim startingCoordinate }
  | some p =>
    if p.length = f.dim then .ok { options := o.inEffect f.dim, point := p }
    else .error (.start p.length f.dim)

/-- How far apart the values of the simplex are now. -/
def spread (d : Descent) : Float := d.search.spread

/-- One iteration. -/
def iterate (f : Objective) : EStateM Failure Descent Unit
  | ⟨options, search, point, value, iterations, moves, history⟩ =>
    match Search.iterate f options point search with
    | .ok reached search =>
      let progress : Progress :=
        { point := reached.best.point
          value := reached.best.value
          spread := search.spread
          iterations := iterations + 1
          moves := if reached.move.isSome then moves + 1 else moves }
      .ok () ⟨options, search, progress.point, progress.value, progress.iterations,
        progress.moves, history.push progress⟩
    | .error why search => .error why ⟨options, search, point, value, iterations, moves, history⟩

/-- A descent goes on to the best vertex of an iteration that has ended well. -/
theorem iterate_of_ok {f : Objective} {d : Descent} {reached : Reached} {search : Search}
    (h : Search.iterate f d.options d.point d.search = .ok reached search) :
    ∃ moves history, iterate f d = .ok () ⟨d.options, search, reached.best.point,
      reached.best.value, d.iterations + 1, moves, history⟩ := by
  rw [iterate, h]
  exact ⟨_, _, rfl⟩

/-- An iteration that fails changes nothing but the search. -/
theorem iterate_of_error {f : Objective} {d : Descent} {why : Failure} {search : Search}
    (h : Search.iterate f d.options d.point d.search = .error why search) :
    iterate f d = .error why { d with search := search } := by
  rw [iterate, h]

/-- Where the descent stands. -/
def progress (d : Descent) : Progress :=
  ⟨d.point, d.value, d.spread, d.iterations, d.moves⟩

/-- One iteration, and at most `more` others while the criterion does not hold. -/
def runWithin (f : Objective) (stop : Progress → Bool) :
    (more : Nat) → EStateM Failure Descent Unit
  | 0 => iterate f
  | more + 1 => do
    iterate f
    if stop (← get).progress then return
    runWithin f stop more

/-- Iterations until the criterion holds or `limit` of them have been completed in all, but one at
least. -/
def run (f : Objective) (stop : Progress → Bool) (limit : Nat) : EStateM Failure Descent Unit := do
  runWithin f stop (limit - (← get).iterations - 1)

end Descent

end Downhill
