import Downhill.Descent.InPlace
import Downhill.Proofs.Descent.Trajectory
import Downhill.Proofs.Simplex.Session

/-!
# The two descents in lockstep

A descent in place has its point from the search, which writes over it, and a descent on a list keeps
one of its own. Beside each other, they show the same (`Beside`).

What is proved: they start alike (`start_beside`), and a run of the one ends as a run of the other one
does, with the same fault if it fails (`run_beside`). So what is proved of descents on lists holds of
those in place.
-/

namespace Downhill

namespace InPlace

namespace Descent

/-- A descent in place stands beside one on a list: its search keeps the simplex of the other one and
the point reached, and both have come to one value in as many iterations. -/
structure Beside (dim : Nat) (d : Descent) (e : Downhill.Descent) : Prop where
  /-- The searches keep the same. -/
  keeps : Keeps e.options e.point dim d.store e.search
  /-- The values are the same. -/
  value : d.value = e.value
  /-- So are the counts. -/
  iterations : d.iterations = e.iterations
  /-- The point has the dimension. -/
  length_point : e.point.length = dim

/-- Two runs end side by side, both with results or both with one fault. -/
inductive EndsBeside (dim : Nat) :
    EStateM.Result Halt Descent Unit → EStateM.Result Failure Downhill.Descent Unit → Prop
  | value {d : Descent} {e : Downhill.Descent} (h : Beside dim d e) :
      EndsBeside dim (.ok () d) (.ok () e)
  | fault {why : Fault} {d : Descent} {e : Downhill.Descent} (h : Beside dim d e) :
      EndsBeside dim (.error (.fault why) d) (.error (.fault why) e)

theorem EndsBeside.ends {dim : Nat} {r : EStateM.Result Halt Descent Unit}
    {r' : EStateM.Result Failure Downhill.Descent Unit} (h : EndsBeside dim r r') :
    (∃ d e, r = .ok () d ∧ r' = .ok () e ∧ Beside dim d e) ∨
    ∃ why d e, r = .error (.fault why) d ∧ r' = .error (.fault why) e ∧ Beside dim d e := by
  cases h with
  | value h => exact .inl ⟨_, _, rfl, rfl, h⟩
  | fault h => exact .inr ⟨_, _, _, rfl, rfl, h⟩

/-- Where a descent on a list stands, as one in place says it. -/
def standingOf (p : Progress) : Standing := ⟨p.point, p.value, some p.spread, p.iterations⟩

variable {f : Objective} {d d' : Descent} {e : Downhill.Descent}

theorem Beside.standing_eq {dim : Nat} (h : Beside dim d e) : d.standing = standingOf e.progress := by
  rw [standing, h.keeps.spread?_eq, h.keeps.point, h.value, h.iterations]
  rfl

/-- **They start alike**, or the starting point is refused by both. -/
theorem start_beside (f : Objective) (o : Options) (point : Option Point) :
    (∃ d e, start f o point = .ok d ∧ Downhill.Descent.start f o point = .ok e ∧
      Beside f.dim d e) ∨
    ∃ how, start f o point = .error how ∧ Downhill.Descent.start f o point = .error how := by
  have hstart : ∀ p : Point, p.length = f.dim →
      Beside f.dim ⟨InPlace.start f o p, infinity, 0, #[]⟩
        { options := o.inEffect f.dim, point := p } := fun p hp =>
    ⟨stands_start f (fun _ => 0) o p, rfl, rfl, hp⟩
  cases point with
  | none => exact .inl ⟨_, _, rfl, rfl, hstart _ List.length_replicate⟩
  | some p =>
    rw [start, Downhill.Descent.start]
    split
    · next hp => exact .inl ⟨_, _, rfl, rfl, hstart p hp⟩
    · exact .inr ⟨_, rfl, rfl⟩

/-- **They iterate side by side.** -/
theorem iterate_beside (h : Beside f.dim d e) :
    EndsBeside f.dim (iterate f d) (Downhill.Descent.iterate f e) := by
  have halike := iterate_alike (f := f) h.keeps h.length_point
  cases hr : InPlace.iterate f d.store with
  | ok y store =>
    rw [hr] at halike
    obtain ⟨reached, search, hr', hy, hkeeps, σ, hσ, hbest⟩ := halike.of_ok
    obtain ⟨moves, history, hi⟩ := Downhill.Descent.iterate_of_ok hr'
    rw [iterate_of_ok hr, hi]
    have hlen : reached.best.point.length = f.dim :=
      hbest ▸ (hkeeps.holds hσ).length_point _ σ.best_mem
    exact .value ⟨hkeeps, hy, congrArg (· + 1) h.iterations, hlen⟩
  | error why store =>
    rw [hr] at halike
    obtain ⟨why, search, rfl, hr', hkeeps⟩ := halike.of_error
    rw [iterate_of_error hr, Downhill.Descent.iterate_of_error hr']
    exact .fault ⟨hkeeps, h.value, h.iterations, h.length_point⟩

/-- A run that has an iteration to spare asks the criterion whether it is needed. -/
theorem runWithin_succ_of_ok (h : iterate f d = .ok () d') (stop : Standing → Bool) (more : Nat) :
    runWithin f stop (more + 1) d =
      if stop d'.standing = true then .ok () d' else runWithin f stop more d' :=
  bind_check_of_ok h fun d => stop d.standing

theorem runWithin_beside (h : Beside f.dim d e) (stop : Standing → Bool) (more : Nat) :
    EndsBeside f.dim (runWithin f stop more d)
      (Downhill.Descent.runWithin f (fun p => stop (standingOf p)) more e) := by
  induction more generalizing d e with
  | zero => exact iterate_beside h
  | succ more ih =>
    rcases (iterate_beside h).ends with ⟨d', e', hd, he, h'⟩ | ⟨why, d', e', hd, he, h'⟩
    · rw [runWithin_succ_of_ok hd, Downhill.Descent.runWithin_succ_of_ok he, h'.standing_eq]
      split
      · exact .value h'
      · exact ih h'
    · rw [runWithin, bind_of_error hd, Downhill.Descent.runWithin, bind_of_error he]
      exact .fault h'

/-- **A run in place ends as a run on a list does.** -/
theorem run_beside (h : Beside f.dim d e) (stop : Standing → Bool) (limit : Nat) :
    EndsBeside f.dim (run f stop limit d)
      (Downhill.Descent.run f (fun p => stop (standingOf p)) limit e) := by
  have hrun : run f stop limit d = runWithin f stop (limit - d.iterations - 1) d := rfl
  rw [hrun, Downhill.Descent.run_eq, h.iterations]
  exact runWithin_beside h stop _

end Descent

end InPlace

end Downhill
