import Downhill.Misuse
import Downhill.Simplex.Basic
import Downhill.Simplex.Options

/-!
# The downhill simplex search

A search keeps a simplex and improves it one iteration after the other. The first iteration lays a
simplex around the point it is given. Every iteration then takes the worst vertex through the
centroid of the others and, by the value found there, expands the move, accepts it, contracts the
simplex on the side of the worst vertex, or shrinks it towards the best one.

The state of a search is its simplex together with all it has asked and noted so far. It outlives an
evaluation that fails: the simplex is then what the iteration has left of it, and the next iteration
goes on from there.
-/

namespace Downhill

/-- What an iteration does to the simplex. -/
inductive Move
  /-- The worst vertex is reflected. -/
  | reflection
  /-- The worst vertex is reflected and taken further. -/
  | expansion
  /-- The worst vertex is taken towards the centroid. -/
  | contraction
  /-- All vertices are taken towards the best one. -/
  | shrinkage
  deriving DecidableEq, Repr

/-- The name of a move. -/
def Move.name : Move → String
  | reflection => "reflection"
  | expansion => "expansion"
  | contraction => "contraction"
  | shrinkage => "shrinkage"

/-- What a search has to tell while it runs. -/
inductive Note
  /-- So many of the vertices of the first simplex have no finite value. -/
  | invalid (count total : Nat)
  /-- The centroid of all vertices but the worst, before a move. -/
  | centroid (p : Point)
  /-- A move, and the best and the worst value after it. -/
  | performed (t : Move) (best worst : Float)
  deriving DecidableEq, Repr

/-- Why an iteration ends without a result. -/
inductive Failure
  /-- The objective has no value at a point it was asked for. -/
  | fault (why : Fault)
  /-- The caller broke a rule. -/
  | misuse (how : Misuse)
  deriving DecidableEq, Repr

/-- The failure in words. -/
def Failure.message : Failure → String
  | fault why => why.message
  | misuse how => how.message

/-- The state of a search. -/
structure Search where
  /-- The simplex, once it has been laid. -/
  simplex : Option Simplex := none
  /-- The points the objective has been asked for, in order, whether it answered or not. -/
  asked : Array Point := #[]
  /-- The notes, in order. -/
  notes : Array Note := #[]

/-- What an iteration reached. -/
structure Reached where
  /-- The best vertex after it. -/
  best : Vertex
  /-- What it did. A simplex of one vertex has nothing to move. -/
  move : Option Move

namespace Search

/-- The vertices by rank, none before the first iteration. -/
def vertices (s : Search) : List Vertex :=
  match s.simplex with
  | none => []
  | some simplex => simplex.vertices

/-- How far apart the best and the worst value are: infinitely far while there is no simplex. -/
def spread (s : Search) : Float :=
  match s.simplex with
  | none => infinity
  | some simplex => simplex.spread

/-- A search that starts anew and keeps what it has asked and noted. -/
def reset (s : Search) : Search := { s with simplex := none }

/-- A part of an iteration: it works on the state and may fail. What it has done to the state by
then stays. -/
abbrev Action := EStateM Failure Search

/-- The value of the objective at a point, as it ranks. The call is counted in any case. -/
def ask (f : Objective) (p : Point) : Action Float
  | ⟨simplex, asked, notes⟩ =>
    let call := asked.size + 1
    match f.apply call p with
    | .ok y => .ok (rankedValue y) ⟨simplex, asked.push p, notes⟩
    | .error why => .error (.fault why) ⟨simplex, asked.push p, notes⟩

/-- The vertex at a point. -/
def probe (f : Objective) (p : Point) : Action Vertex := do
  let y ← ask f p
  return ⟨p, y⟩

/-- A note is added. -/
def note (n : Note) : Action Unit
  | ⟨simplex, asked, notes⟩ => .ok () ⟨simplex, asked, notes.push n⟩

/-- The simplex is replaced. -/
def place (new : Simplex) : Action Unit
  | ⟨_, asked, notes⟩ => .ok () ⟨some new, asked, notes⟩

/-- An answer is ranked, and its point counts as asked. -/
theorem ask_of_ok {f : Objective} {p : Point} {s : Search} {y : Float}
    (h : f.apply (s.asked.size + 1) p = .ok y) :
    ask f p s = .ok (rankedValue y) { s with asked := s.asked.push p } := by
  simp only [ask, h]

/-- A point without an answer counts as asked, and nothing else changes. -/
theorem ask_of_error {f : Objective} {p : Point} {s : Search} {why : Fault}
    (h : f.apply (s.asked.size + 1) p = .error why) :
    ask f p s = .error (.fault why) { s with asked := s.asked.push p } := by
  simp only [ask, h]

@[simp] theorem note_apply (n : Note) (s : Search) :
    note n s = .ok () { s with notes := s.notes.push n } := rfl

@[simp] theorem place_apply (new : Simplex) (s : Search) :
    place new s = .ok () { s with simplex := some new } := rfl

/-! ### The first simplex -/

/-- The vertices at a list of points, asked for in order. -/
def probeAll (f : Objective) : List Point → Action (List Vertex)
  | [] => return []
  | p :: ps => do
    let v ← probe f p
    let vs ← probeAll f ps
    return v :: vs

/-- The points around `x` in each of which one coordinate is moved. -/
def neighbours (o : Options) (x : Point) : List Point :=
  (List.range x.length).map fun j => x.modify j o.nudge

/-- The first simplex, of `x` and its neighbours. There is none if any of them has no value. -/
def lay (f : Objective) (o : Options) (x : Point) : Action Simplex := do
  let v ← probe f x
  let vs ← probeAll f (neighbours o x)
  let count := (v :: vs).countP (!·.value.isFinite)
  if 0 < count then note (.invalid count (v :: vs).length)
  let simplex := Simplex.ranked v vs
  place simplex
  return simplex

/-! ### One iteration -/

/-- All vertices but the best are taken towards it, in order of rank, and asked for again. The
vertices in `moved` have been, those in the list are still to be. A vertex is moved before it is
asked for, and keeps its old value if it has no new one. -/
def shrink (f : Objective) (o : Options) (best : Vertex) (moved : List Vertex) :
    List Vertex → Action (List Vertex)
  | [] => return moved
  | v :: rest => do
    let p := along o.shrinkage best.point v.point
    place ⟨best, moved ++ ⟨p, v.value⟩ :: rest⟩
    let y ← ask f p
    shrink f o best (moved ++ [⟨p, y⟩]) rest

/-- A reflected vertex better than all others is followed further from the centroid, and the better
of the two replaces the worst vertex. -/
def expand (f : Objective) (o : Options) (center : Point) (reflected : Vertex)
    (middle : List Vertex) : Action (Move × List Vertex) := do
  let expanded ← probe f (along o.expansion center reflected.point)
  if expanded.value < reflected.value then return (.expansion, middle ++ [expanded])
  else return (.reflection, middle ++ [reflected])

/-- The worst vertex is taken towards the centroid. If that makes it no better the simplex is
shrunk. -/
def contract (f : Objective) (o : Options) (center : Point) (best : Vertex) (middle : List Vertex)
    (worst : Vertex) : Action (Move × List Vertex) := do
  let contracted ← probe f (along o.contraction center worst.point)
  if contracted.value < worst.value then return (.contraction, middle ++ [contracted])
  else
    let shrunk ← shrink f o best [] (middle ++ [worst])
    return (.shrinkage, shrunk)

/-- One of the four moves of a simplex with the vertices `best`, `middle` and `worst` by
rank, and the vertices that then stand beside the best one. -/
def transform (f : Objective) (o : Options) (best : Vertex) (middle : List Vertex)
    (worst : Vertex) : Action (Move × List Vertex) := do
  let center := centroid best.point.length ((best :: middle).map Vertex.point)
  note (.centroid center)
  let secondWorst := middle.getLast?.getD best
  let reflected ← probe f (along (-o.reflection) center worst.point)
  if best.value ≤ reflected.value ∧ reflected.value < secondWorst.value then
    return (.reflection, middle ++ [reflected])
  else if reflected.value < best.value then expand f o center reflected middle
  else contract f o center best middle worst

/-- A simplex is improved once and ranked again. With a single vertex there is nothing to move. -/
def improve (f : Objective) (o : Options) (s : Simplex) : Action Reached := do
  match s.others.getLast? with
  | none => return ⟨s.best, none⟩
  | some worst =>
    let (move, others) ← transform f o s.best s.others.dropLast worst
    let new := Simplex.ranked s.best others
    place new
    note (.performed move new.best.value new.worst.value)
    return ⟨new.best, some move⟩

/-- The simplex there is, or else a first one around `x`. -/
def simplexAround (f : Objective) (o : Options) (x : Point) : Action Simplex := do
  match (← get).simplex with
  | some s => return s
  | none => lay f o x

theorem simplexAround_of_some {f : Objective} {o : Options} {x : Point} {s : Search}
    {simplex : Simplex} (h : s.simplex = some simplex) :
    simplexAround f o x s = .ok simplex s := by
  obtain ⟨_, asked, notes⟩ := s
  cases h
  rfl

theorem simplexAround_of_none {f : Objective} {o : Options} {x : Point} {s : Search}
    (h : s.simplex = none) : simplexAround f o x s = lay f o x s := by
  obtain ⟨_, asked, notes⟩ := s
  cases h
  rfl

/-- One iteration, from the point `x`, which is to become the best vertex. The point matters only
where a first simplex is laid around it, but has the dimension of the simplex in any case. The
options are those in effect. -/
def iterate (f : Objective) (o : Options) (x : Point) : Action Reached := do
  let s ← simplexAround f o x
  let reached ← improve f o s
  if reached.best.point.length = x.length then return reached
  else throw (.misuse .shape)

end Search

end Downhill
