import Downhill.Objective.Basic

/-!
# Simplices

A simplex of dimension `n` is `n + 1` vertices, each a point with the value found there, listed by
rank from the best to the worst. This module holds the simplex, the ranking of its vertices and the
points that a search constructs from them.

A value that is not finite ranks as positive infinity. So no vertex holds a value that cannot be
compared, and an invalid point is the first to be replaced.
-/

namespace Downhill

/-- Positive infinity. -/
def infinity : Float := .ofBits 0x7FF0000000000000

/-- A value as it ranks: infinite unless it is finite. -/
def rankedValue (y : Float) : Float := if y.isFinite then y else infinity

theorem rankedValue_of_isFinite {y : Float} (h : y.isFinite = true) : rankedValue y = y := by
  simp [rankedValue, h]

theorem rankedValue_of_not_isFinite {y : Float} (h : y.isFinite = false) :
    rankedValue y = infinity := by
  simp [rankedValue, h]

/-! ### Points -/

/-- The point at `t` on the way from `a`, at zero, to `b`, at one. -/
def along (t : Float) (a b : Point) : Point :=
  List.zipWith (fun a b => (b - a) * t + a) a b

theorem length_along (t : Float) (a b : Point) :
    (along t a b).length = min a.length b.length := by
  simp [along]

/-- The sum of points of one dimension, taken in order from zero. -/
def pointSum (dim : Nat) (ps : List Point) : Point :=
  ps.foldl (List.zipWith (· + ·)) (List.replicate dim 0)

/-- The mean of points of one dimension. -/
def centroid (dim : Nat) (ps : List Point) : Point :=
  (pointSum dim ps).map (· / Float.ofNat ps.length)

/-! ### Vertices and their ranking -/

/-- A point and the value found there. -/
structure Vertex where
  /-- The point. -/
  point : Point
  /-- The value, as it ranks. -/
  value : Float
  deriving DecidableEq, Repr

/-- The vertex is at least as good as the other one. -/
def Vertex.noWorse (v w : Vertex) : Bool := v.value ≤ w.value

/-- A simplex, by its vertices from the best to the worst. -/
structure Simplex where
  /-- The best vertex. -/
  best : Vertex
  /-- The other vertices, the worst at the end. -/
  others : List Vertex
  deriving DecidableEq, Repr

namespace Simplex

/-- All vertices by rank. -/
def vertices (s : Simplex) : List Vertex := s.best :: s.others

/-- The worst vertex. -/
def worst (s : Simplex) : Vertex := s.others.getLast?.getD s.best

/-- The vertices given, ranked by value. Of equal vertices the one given first stays first. -/
def ranked (v : Vertex) (vs : List Vertex) : Simplex :=
  match h : (v :: vs).mergeSort Vertex.noWorse with
  | best :: others => ⟨best, others⟩
  | [] => absurd (congrArg List.length h) (by simp)

@[simp] theorem vertices_ranked (v : Vertex) (vs : List Vertex) :
    (ranked v vs).vertices = (v :: vs).mergeSort Vertex.noWorse := by
  unfold ranked
  split
  · next h => rw [h]; rfl
  · next h => exact absurd (congrArg List.length h) (by simp)

/-- Ranking neither loses nor adds a vertex. -/
theorem vertices_ranked_perm (v : Vertex) (vs : List Vertex) :
    (ranked v vs).vertices.Perm (v :: vs) := by
  rw [vertices_ranked]
  exact List.mergeSort_perm _ _

/-- How far apart the values of the best and the worst vertex are. -/
def spread (s : Simplex) : Float := s.worst.value - s.best.value

end Simplex

end Downhill
