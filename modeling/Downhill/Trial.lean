import Downhill.Simplex.Search

/-!
# Trials

A trial runs a search on a function whose least value is known, until that value is reached up to a
tolerance. The limit counts the iterations that miss the goal and are followed by another one.
-/

namespace Downhill

namespace Trial

/-- Why a trial fails. -/
inductive Failed
  /-- The search failed. -/
  | search (why : Failure)
  /-- The goal was not reached in time. -/
  | unfinished
  deriving DecidableEq, Repr

/-- The failure in words. -/
def Failed.message : Failed → String
  | search why => why.message
  | unfinished => "optimizer did not terminate"

/-- Iterations from `x` until the value is at most `goal`, and the point then. After an iteration
that misses the goal, at most `more` others follow. -/
def reach (f : Objective) (o : Options) (goal : Float) :
    (more : Nat) → Point → EStateM Failed Search Point
  | more, x => fun s =>
    match Search.iterate f o x s with
    | .error why s => .error (.search why) s
    | .ok reached s =>
      if reached.best.value ≤ goal then .ok reached.best.point s
      else match more with
        | 0 => .error .unfinished s
        | more + 1 => reach f o goal more reached.best.point s

/-- A trial of the search with the options given, from `x`, on an objective whose least value is
`least`. -/
def run (f : Objective) (o : Options) (x : Point) (least tolerance : Float) (limit : Nat) :
    EStateM Failed Search Point :=
  reach f (o.inEffect f.dim) (least + tolerance) limit x

end Trial

end Downhill
