import Downhill.Simplex.Search

/-!
# The search in place

`Search` lists the vertices of a simplex by rank. Here the vertices stay where they are, in slots:
one array holds the points, another the values, and a third one the slots by rank. A move writes over
the slot of the worst vertex, a shrinkage over all slots but that of the best one, and ranking sorts
slots and moves no point. Points on the way are drawn in four drafts, which a search keeps from one
iteration to the next, and every iteration ends with the best point copied to the caller.

All accesses are checked. An index beyond an array or two points of different dimensions are a
breach, which is no answer of the objective and no result.
-/

namespace Downhill

namespace InPlace

/-! ### What a search keeps -/

/-- The vertices by slot, and the slots by rank. -/
structure Slots where
  /-- The point in each slot. -/
  points : Array Point := #[]
  /-- The value in each slot, as it ranks. -/
  values : Array Float := #[]
  /-- The slots, from that of the best vertex to that of the worst. -/
  order : Array Nat := #[]
  deriving DecidableEq

/-- A draft of a point. -/
inductive Draft
  /-- The mean of all vertices but the worst. -/
  | centroid
  /-- The worst vertex reflected. -/
  | reflection
  /-- The reflected vertex taken further. -/
  | expansion
  /-- The worst vertex taken towards the centroid, and in a shrinkage a copy of the best one. -/
  | contraction
  deriving DecidableEq, Repr

/-- The four drafts. -/
structure Drafts where
  /-- The draft of the centroid. -/
  centroid : Point
  /-- The draft of a reflection. -/
  reflection : Point
  /-- The draft of an expansion. -/
  expansion : Point
  /-- The draft of a contraction. -/
  contraction : Point
  deriving DecidableEq

namespace Drafts

/-- What a draft shows. -/
def get (ds : Drafts) : Draft → Point
  | .centroid => ds.centroid
  | .reflection => ds.reflection
  | .expansion => ds.expansion
  | .contraction => ds.contraction

/-- A draft is drawn anew. -/
def set (ds : Drafts) (d : Draft) (p : Point) : Drafts :=
  match d with
  | .centroid => { ds with centroid := p }
  | .reflection => { ds with reflection := p }
  | .expansion => { ds with expansion := p }
  | .contraction => { ds with contraction := p }

@[simp] theorem get_set_self (ds : Drafts) (d : Draft) (p : Point) : (ds.set d p).get d = p := by
  cases d <;> rfl

theorem get_set_of_ne (ds : Drafts) {d e : Draft} (h : e ≠ d) (p : Point) :
    (ds.set d p).get e = ds.get e := by
  cases d <;> cases e <;> first | rfl | exact absurd rfl h

theorem set_get (ds : Drafts) (d : Draft) : ds.set d (ds.get d) = ds := by
  cases d <;> rfl

theorem set_set (ds : Drafts) (d : Draft) (p q : Point) : (ds.set d p).set d q = ds.set d q := by
  cases d <;> rfl

end Drafts

/-- The state of a search in place. -/
structure Store where
  /-- The options in effect. -/
  options : Options
  /-- The vertices, none before the first iteration. -/
  slots : Slots := {}
  /-- The drafts. -/
  drafts : Drafts
  /-- The point of the caller, which receives the best one. -/
  point : Point
  /-- The points the objective has been asked for, in order, whether it answered or not. -/
  asked : Array Point := #[]
  /-- The notes, in order. -/
  notes : Array Note := #[]
  deriving DecidableEq

/-- An access that cannot be made. -/
inductive Breach
  /-- The index is beyond the entries there are. -/
  | outside (size index : Nat)
  /-- Points of different dimensions are copied or combined. -/
  | dimensions (expected actual : Nat)
  deriving DecidableEq, Repr

/-- Why an iteration ends without a result. -/
inductive Halt
  /-- The objective has no value at a point it was asked for. -/
  | fault (why : Fault)
  /-- An access could not be made. -/
  | breach (how : Breach)
  deriving DecidableEq, Repr

/-- A search on an objective from the point of a caller, before its first iteration. -/
def start (f : Objective) (o : Options) (x : Point) : Store :=
  let blank := List.replicate f.dim 0
  { options := o.inEffect f.dim, drafts := ⟨blank, blank, blank, blank⟩, point := x }

namespace Slots

/-- The vertex in a slot. -/
def vertex? (s : Slots) (slot : Nat) : Option Vertex :=
  match s.points[slot]?, s.values[slot]? with
  | some p, some y => some ⟨p, y⟩
  | _, _ => none

/-- The vertices by rank, if all slots are there. -/
def vertices? (s : Slots) : Option (List Vertex) := s.order.toList.mapM s.vertex?

/-- How far apart the values in the first and the last slot by rank are: infinitely far while there
is none, and without an answer if a slot is not there. -/
def spread? (s : Slots) : Option Float :=
  match s.order.toList.head?, s.order.toList.getLast? with
  | some best, some worst =>
    match s.values[worst]?, s.values[best]? with
    | some y, some z => some (y - z)
    | _, _ => none
  | _, _ => some infinity

/-- The value in a slot is not above that in the other one. What cannot be compared counts as
equal. -/
def notAfter (s : Slots) (i j : Nat) : Bool := !(s.values[j]?.getD 0 < s.values[i]?.getD 0)

end Slots

/-- A search that forgets its vertices. -/
def Store.reset (t : Store) : Store := { t with slots := {} }

/-! ### Accesses -/

/-- A part of an iteration. What it has written by the time it fails stays. -/
abbrev Action := EStateM Halt Store

/-- How parts of an iteration end can be compared. -/
instance decidableEqResult {ε σ α : Type} [DecidableEq ε] [DecidableEq σ] [DecidableEq α] :
    DecidableEq (EStateM.Result ε σ α)
  | .ok a s, .ok b t => decidable_of_iff (a = b ∧ s = t) (by simp)
  | .error d s, .error e t => decidable_of_iff (d = e ∧ s = t) (by simp)
  | .ok _ _, .error _ _ => isFalse nofun
  | .error _ _, .ok _ _ => isFalse nofun

/-- The entry at an index. -/
def fetch {α : Type} (entries : Slots → Array α) (i : Nat) : Action α := fun t =>
  match (entries t.slots)[i]? with
  | some a => .ok a t
  | none => .error (.breach (.outside (entries t.slots).size i)) t

/-- What a draft shows. -/
def draft (d : Draft) : Action Point := fun t => .ok (t.drafts.get d) t

/-- The points have one dimension. -/
def agree (p q : Point) : Action Unit := fun t =>
  if p.length = q.length then .ok () t
  else .error (.breach (.dimensions p.length q.length)) t

/-- A point is copied to a draft. -/
def draw (d : Draft) (p : Point) : Action Unit := do
  agree (← draft d) p
  modify fun t => { t with drafts := t.drafts.set d p }

/-- A point is copied over the one in a slot. -/
def putPoint (slot : Nat) (p : Point) : Action Unit := do
  agree (← fetch Slots.points slot) p
  modify fun t => { t with slots.points := t.slots.points.setIfInBounds slot p }

/-- The value in a slot is replaced. -/
def putValue (slot : Nat) (y : Float) : Action Unit := do
  let _ ← fetch Slots.values slot
  modify fun t => { t with slots.values := t.slots.values.setIfInBounds slot y }

/-- A vertex is put in a new slot. -/
def push (p : Point) (y : Float) : Action Unit :=
  modify fun t =>
    { t with slots.points := t.slots.points.push p, slots.values := t.slots.values.push y }

/-- The value of the objective at a point, as it ranks. The call is counted in any case. -/
def ask (f : Objective) (p : Point) : Action Float := fun t =>
  match f.apply (t.asked.size + 1) p with
  | .ok y => .ok (rankedValue y) { t with asked := t.asked.push p }
  | .error why => .error (.fault why) { t with asked := t.asked.push p }

/-- A note is added. -/
def note (n : Note) : Action Unit := modify fun t => { t with notes := t.notes.push n }

/-- The slots are sorted by the values in them, and of equal ones the one before stays before. -/
def rank : Action Unit := fun t =>
  match t.slots.order.toList.find? (t.slots.values.size ≤ ·) with
  | some slot => .error (.breach (.outside t.slots.values.size slot)) t
  | none =>
    let sorted := t.slots.order.toList.mergeSort t.slots.notAfter
    .ok () { t with slots.order := sorted.toArray }

/-! ### Points in three passes -/

/-- The point at `t` on the way from `a` to `b`, computed in three passes: the way, the part of it,
and the end of the part. -/
def line (t : Float) (a b : Point) : Point :=
  List.zipWith (· + ·) ((List.zipWith (· - ·) b a).map (· * t)) a

/-- The three passes make the point that one pass makes. -/
theorem line_eq_along (t : Float) (a b : Point) : line t a b = along t a b := by
  rw [line, along]
  induction a generalizing b with
  | nil => cases b <;> rfl
  | cons x a ih =>
    cases b with
    | nil => rfl
    | cons y b =>
      simp only [List.zipWith_cons_cons, List.map_cons]
      rw [ih]

/-- A draft is drawn at `t` on the way from `a` to `b`. -/
def drawLine (d : Draft) (t : Float) (a b : Point) : Action Unit := do
  agree a b
  draw d (line t a b)

/-! ### The first simplex -/

/-- Asks for a point of the first simplex. Without an answer all slots are given up. -/
def askOrClear (f : Objective) (p : Point) : Action Float := fun t =>
  match ask f p t with
  | .ok y t => .ok y t
  | .error why t => .error why { t with slots.points := #[], slots.values := #[] }

/-- The points around `x` in which one of the coordinates listed is moved are put in new slots. -/
def layAround (f : Objective) (x : Point) : List Nat → Action Unit
  | [] => return
  | j :: js => do
    match x[j]? with
    | none => throw (.breach (.outside x.length j))
    | some c =>
      let p := x.set j ((← get).options.nudge c)
      push p (← askOrClear f p)
      layAround f x js

/-- So many slots are listed in the order in which they were laid, and ranked. -/
def arrange (count : Nat) : Action Unit := do
  modify fun t => { t with slots.order := t.slots.order ++ (List.range count).toArray }
  rank

/-- The first simplex is laid, of the point of the caller and those around it, and ranked. -/
def lay (f : Objective) : Action Unit := do
  let x := (← get).point
  push x (← ask f x)
  layAround f x (List.range f.dim)
  let laid := (← get).slots
  let count := laid.values.countP (!·.isFinite)
  if 0 < count then note (.invalid count laid.points.size)
  arrange (f.dim + 1)

/-! ### One iteration -/

/-- The points of the ranks listed are added to the draft of the centroid. -/
def gather : List Nat → Action Unit
  | [] => return
  | r :: rs => do
    let p ← fetch Slots.points (← fetch Slots.order r)
    let sum ← draft .centroid
    agree sum p
    draw .centroid (List.zipWith (· + ·) sum p)
    gather rs

/-- The mean of the first `n` points by rank is drawn. -/
def drawCentroid (n : Nat) : Action Unit := do
  draw .centroid (List.replicate (← draft .centroid).length 0)
  gather (List.range n)
  draw .centroid ((← draft .centroid).map (· / Float.ofNat n))

/-- A draft and the value there take the place of a vertex. -/
def replace (slot : Nat) (d : Draft) (y : Float) : Action Unit := do
  putPoint slot (← draft d)
  putValue slot y

/-- The vertices in the slots listed are taken towards the point in the draft of the contraction, and
asked for again. A point is written before it is asked for. -/
def shrink (f : Objective) : List Nat → Action Unit
  | [] => return
  | slot :: rest => do
    let best ← draft .contraction
    let p ← fetch Slots.points slot
    agree best p
    putPoint slot (line (← get).options.shrinkage best p)
    putValue slot (← ask f (← fetch Slots.points slot))
    shrink f rest

/-- The reflected vertex, in its draft, is followed further from the centroid. The better of the two
replaces the worst one. -/
def expand (f : Objective) (worst : Nat) (reflected : Float) : Action Move := do
  drawLine .expansion (← get).options.expansion (← draft .centroid) (← draft .reflection)
  let expanded ← ask f (← draft .expansion)
  if expanded < reflected then
    replace worst .expansion expanded
    return .expansion
  else
    replace worst .reflection reflected
    return .reflection

/-- The worst vertex is taken towards the centroid. If that makes it no better the best point is
copied to the draft, and all other slots are shrunk towards it. -/
def contract (f : Objective) (best worst : Nat) : Action Move := do
  drawLine .contraction (← get).options.contraction (← draft .centroid)
    (← fetch Slots.points worst)
  let contracted ← ask f (← draft .contraction)
  if contracted < (← fetch Slots.values worst) then
    replace worst .contraction contracted
    return .contraction
  else
    draw .contraction (← fetch Slots.points best)
    shrink f ((← get).slots.order.toList.drop 1)
    return .shrinkage

/-- One of the four moves, in `n + 1` dimensions. -/
def transform (f : Objective) (n : Nat) : Action Move := do
  drawCentroid (n + 1)
  note (.centroid (← draft .centroid))
  let best ← fetch Slots.order 0
  let secondWorst ← fetch Slots.order n
  let worst ← fetch Slots.order (n + 1)
  drawLine .reflection (-(← get).options.reflection) (← draft .centroid)
    (← fetch Slots.points worst)
  let reflected ← ask f (← draft .reflection)
  let bestValue ← fetch Slots.values best
  if bestValue ≤ reflected ∧ reflected < (← fetch Slots.values secondWorst) then
    replace worst .reflection reflected
    return .reflection
  else if reflected < bestValue then expand f worst reflected
  else contract f best worst

/-- The best point is copied to the caller, and its value is the result. -/
def finish : Action Float := do
  let best ← fetch Slots.order 0
  let p ← fetch Slots.points best
  agree (← get).point p
  modify fun t => { t with point := p }
  fetch Slots.values best

/-- The move made and the values of the best and the worst vertex are noted. -/
def noteMove (move : Move) (last : Nat) : Action Unit := do
  let best ← fetch Slots.values (← fetch Slots.order 0)
  let worst ← fetch Slots.values (← fetch Slots.order last)
  note (.performed move best worst)

/-- A move of the simplex there is, in so many dimensions, and the value of the best vertex after it.
In no dimension there is nothing to move. -/
def improve (f : Objective) : Nat → Action Float
  | 0 => finish
  | n + 1 => do
    let move ← transform f n
    rank
    noteMove move (n + 1)
    finish

/-- One iteration, and the value of the best vertex after it. -/
def iterate (f : Objective) : Action Float := do
  if (← get).slots.points.isEmpty then lay f
  improve f f.dim

/-- So many iterations, one after the other, until one fails. -/
def iterations (f : Objective) : Nat → Action Unit
  | 0 => return
  | k + 1 => do
    iterations f k
    let _ ← iterate f

end InPlace

end Downhill
