import Downhill.Proofs.Simplex.Reachable

/-!
# Sessions

A caller uses a search in place as it likes: it iterates, moves its point, resets the search or just
looks at it (`Use`). This module says what it gets to see of each use (`Shown`) and of a row of them
(`session`): the result or why there is none, its point, the vertices and their spread, the options in
effect, and the points that the objective was asked for meanwhile.

What is proved: a search beside one on a list shows the vertices of that list and their spread
(`Keeps.vertices?_eq`, `Keeps.spread?_eq`).
-/

namespace Downhill

namespace InPlace

open Simplex

/-- What a caller may do with a search. -/
inductive Use
  /-- It iterates. -/
  | iterate
  /-- It moves its point. -/
  | move (x : Point)
  /-- It resets the search. -/
  | reset
  /-- It looks at the search. -/
  | look
  deriving DecidableEq, Repr

/-- A point that is moved has the dimension. -/
def Use.Fits (dim : Nat) : Use → Prop
  | .move x => x.length = dim
  | _ => True

/-- What a caller is shown of a use. -/
structure Shown where
  /-- The result of an iteration, or why there is none. -/
  result : Option (Except Halt Float)
  /-- The point of the caller. -/
  point : Point
  /-- The vertices by rank. -/
  vertices : Option (List Vertex)
  /-- How far apart the best and the worst value are. -/
  spread : Option Float
  /-- The options in effect. -/
  options : Options
  /-- The points the objective has been asked for, in order. -/
  asked : List Point

/-- One use, with the result if it is an iteration. -/
def Store.use (f : Objective) (t : Store) : Use → Option (Except Halt Float) × Store
  | .iterate =>
    match InPlace.iterate f t with
    | .ok y t' => (some (.ok y), t')
    | .error e t' => (some (.error e), t')
  | .move x => (none, { t with point := x })
  | .reset => (none, t.reset)
  | .look => (none, t)

/-- What is shown of a use that has led from `t` to `t'`. -/
def shown (result : Option (Except Halt Float)) (t t' : Store) : Shown where
  result := result
  point := t'.point
  vertices := t'.slots.vertices?
  spread := t'.slots.spread?
  options := t'.options
  asked := t'.asked.toList.drop t.asked.size

/-- What is shown of one use after the other. The caller goes on whatever the result is. -/
def session (f : Objective) (t : Store) : List Use → List Shown
  | [] => []
  | u :: us => shown (t.use f u).1 t (t.use f u).2 :: session f (t.use f u).2 us

/-- The values of the iterations that had a result, in order. -/
def valuesShown (shows : List Shown) : List Float :=
  shows.filterMap fun v => v.result.bind Except.toOption

variable {f : Objective} {o : Options} {x : Point} {dim : Nat} {t t' : Store} {s : Search}

theorem use_of_ok {y : Float} (h : iterate f t = .ok y t') :
    t.use f .iterate = (some (.ok y), t') := by
  rw [Store.use, h]

theorem use_of_error {e : Halt} (h : iterate f t = .error e t') :
    t.use f .iterate = (some (.error e), t') := by
  rw [Store.use, h]

theorem valuesShown_of_ok {y : Float} (h : iterate f t = .ok y t') (uses : List Use) :
    valuesShown (session f t (.iterate :: uses)) = y :: valuesShown (session f t' uses) := by
  rw [session, use_of_ok h]
  rfl

theorem valuesShown_of_error {e : Halt} (h : iterate f t = .error e t') (uses : List Use) :
    valuesShown (session f t (.iterate :: uses)) = valuesShown (session f t' uses) := by
  rw [session, use_of_error h]
  rfl

/-! ### What a search shows -/

/-- The vertices shown are those of the list. -/
theorem Keeps.vertices?_eq (h : Keeps o x dim t s) : t.slots.vertices? = some s.vertices := by
  rw [Search.vertices]
  cases hσ : s.simplex with
  | none =>
    rw [h.slots_eq hσ]
    rfl
  | some σ => exact (h.holds hσ).vertices?_eq

/-- The spread shown is that of the list. -/
theorem Keeps.spread?_eq (h : Keeps o x dim t s) : t.slots.spread? = some s.spread := by
  rw [Search.spread]
  cases hσ : s.simplex with
  | none =>
    rw [h.slots_eq hσ]
    rfl
  | some σ =>
    change t.slots.spread? = some σ.spread
    rw [Simplex.spread, worst_eq_getLast]
    exact (h.holds hσ).spread?_eq

end InPlace

end Downhill
