import Downhill.Descent
import Downhill.Simplex.InPlace

/-!
# Descents in place

`Descent` keeps the point reached beside its search, and hands it over for each iteration. Here the
search is one in place, which writes the best vertex over the point of its caller: what is reached is
the point in its store, and nothing else keeps it where it was when an iteration fails.
-/

namespace Downhill

namespace InPlace

/-- Where a descent stands after an iteration. -/
structure Standing where
  /-- The point reached. -/
  point : Point
  /-- The value there. -/
  value : Float
  /-- How far apart the best and the worst value of the simplex are. -/
  spread : Option Float
  /-- The number of iterations completed. -/
  iterations : Nat

/-- A descent with a search in place. -/
structure Descent where
  /-- The search, with the point reached. -/
  store : Store
  /-- The value there, infinite before the first iteration. -/
  value : Float := infinity
  /-- The number of iterations completed. -/
  iterations : Nat := 0
  /-- Where it has stood after each of them, in order. -/
  history : Array Standing := #[]

namespace Descent

/-- A descent before its first iteration. A starting point that is given has the dimension of the
objective. -/
def start (f : Objective) (o : Options) (point : Option Point) : Except Misuse Descent :=
  match point with
  | none => .ok ⟨InPlace.start f o (List.replicate f.dim Downhill.Descent.startingCoordinate),
      infinity, 0, #[]⟩
  | some p =>
    if p.length = f.dim then .ok ⟨InPlace.start f o p, infinity, 0, #[]⟩
    else .error (.start p.length f.dim)

/-- Where the descent stands. -/
def standing (d : Descent) : Standing :=
  ⟨d.store.point, d.value, d.store.slots.spread?, d.iterations⟩

/-- One iteration. -/
def iterate (f : Objective) : EStateM Halt Descent Unit
  | ⟨store, value, iterations, history⟩ =>
    match InPlace.iterate f store with
    | .ok y store =>
      .ok () ⟨store, y, iterations + 1,
        history.push ⟨store.point, y, store.slots.spread?, iterations + 1⟩⟩
    | .error e store => .error e ⟨store, value, iterations, history⟩

/-- One iteration, and at most `more` others while the criterion does not hold. -/
def runWithin (f : Objective) (stop : Standing → Bool) :
    (more : Nat) → EStateM Halt Descent Unit
  | 0 => iterate f
  | more + 1 => do
    iterate f
    if stop (← get).standing then return
    runWithin f stop more

/-- Iterations until the criterion holds or `limit` of them have been completed in all, but one at
least. -/
def run (f : Objective) (stop : Standing → Bool) (limit : Nat) : EStateM Halt Descent Unit := do
  runWithin f stop (limit - (← get).iterations - 1)

variable {f : Objective} {d : Descent} {store : Store}

/-- A descent goes on to what its search has written. -/
theorem iterate_of_ok {y : Float} (h : InPlace.iterate f d.store = .ok y store) :
    iterate f d = .ok () ⟨store, y, d.iterations + 1,
      d.history.push ⟨store.point, y, store.slots.spread?, d.iterations + 1⟩⟩ := by
  rw [iterate, h]

/-- An iteration that fails changes nothing but the search. -/
theorem iterate_of_error {e : Halt} (h : InPlace.iterate f d.store = .error e store) :
    iterate f d = .error e { d with store } := by
  rw [iterate, h]

end Descent

end InPlace

end Downhill
