import Downhill.Misuse
import Downhill.Objective.Basic

/-!
# Benchmark functions

Three functions with known minima, on which a search can be tried: the sphere, the extended
Rosenbrock function and Booth's function. Each brings the points a search usually starts from.
-/

namespace Downhill

/-- A function with known minima. -/
structure Benchmark where
  /-- The function. -/
  objective : Objective
  /-- The usual starting points. -/
  starts : List Point
  /-- All points of least value. -/
  optima : List Point

namespace Benchmark

/-- The square of a number. -/
def square (x : Float) : Float := x * x

/-- Numbers added up in eight lanes: while eight are left, each is added to the lane of its place,
starting from the lanes given. What remains are the lanes and fewer than eight numbers. -/
def lanes (acc : List Float) (xs : List Float) : List Float × List Float :=
  if 8 ≤ xs.length then lanes (List.zipWith (· + ·) acc (xs.take 8)) (xs.drop 8) else (acc, xs)
termination_by xs.length

/-- The sum of numbers taken in eight lanes. The lanes are joined in pairs, first and fifth, second
and sixth and so on, and the numbers left over come last. -/
def laneSum (xs : List Float) : Float :=
  let (acc, rest) := lanes (List.replicate 8 0) xs
  let pairs := List.zipWith (· + ·) (acc.take 4) (acc.drop 4)
  (pairs ++ rest).foldl (· + ·) 0

/-- Coordinates that repeat two values in turn. -/
def alternating (n : Nat) (a b : Float) : Point :=
  (List.range n).map fun i => if i % 2 = 0 then a else b

/-- The sum of the squares of the coordinates. Least at the origin. -/
def sphere (n : Nat) : Except Misuse Benchmark :=
  if n = 0 then .error .noVariables
  else .ok {
    objective := .ofFunction n fun p => .ok (laneSum (p.map square))
    starts := [alternating n 10 (-10)]
    optima := [List.replicate n 0] }

/-- The Rosenbrock terms of coordinates taken two by two. -/
def rosenbrockTerms : Point → List Float
  | x :: y :: rest => (100 * square (y - x * x) + square (1 - x)) :: rosenbrockTerms rest
  | _ => []

/-- The extended Rosenbrock function, a long and narrow bent valley. Least where all coordinates
are one. -/
def rosenbrock (n : Nat) : Except Misuse Benchmark :=
  if n = 0 then .error .noVariables
  else if n % 2 ≠ 0 then .error .oddVariables
  else .ok {
    objective := .ofFunction n fun p => .ok ((rosenbrockTerms p).foldl (· + ·) 0)
    starts := [alternating n (-1.2) 1, alternating n 6.39 (-0.221)]
    optima := [List.replicate n 1] }

/-- The value of Booth's function. -/
def boothValue : Point → Float
  | [x, y] => square (x + 2 * y - 7) + square (2 * x + y - 5)
  | _ => 0

/-- Booth's function, a flat plate of two variables. Least at `(1, 3)`. -/
def booth : Benchmark where
  objective := .ofFunction 2 fun p => .ok (boothValue p)
  starts := [[1, 1], [-10, 10], [0, 0]]
  optima := [[1, 3]]

/-- Two coordinates are no further apart than `eps`. What is no number is near nothing. -/
def agrees (eps a b : Float) : Bool := (a - b).abs ≤ eps

/-- The point agrees with an optimum in every coordinate that both have. -/
def isOptimum (b : Benchmark) (eps : Float) (p : Point) : Bool :=
  b.optima.any fun q => (p.zip q).all fun (x, y) => agrees eps x y

end Benchmark

end Downhill
