import Downhill.Proofs.Descent.Trajectory
import Downhill.Proofs.Formula.Unknowns
import Downhill.Service.Basic

/-!
# Where a query ends

A query that can be answered is a descent, and three things may end it: the spread of the simplex is
within the tolerance, the iterations are used up, or the query has been cancelled. They may come
together, and the spread may be no number.

What is proved: no iteration of the descent fails, the descent ends after the least number of
iterations after which one of the three holds, and the outcome asks for them in this order: the
spread, then the cancellation, and only then the number of iterations
(`minimizeUnlessCancelled_ends_first`).
-/

namespace Downhill

/-- What a check finds cancelled is found so after the end. -/
def Cancellation.Lasting (c : Cancellation) : Prop :=
  ∀ p, c.atCheck p = true → c.atEnd p = true

theorem Cancellation.lasting_duringMove (k : Nat) : (duringMove k).Lasting := fun _ h => h

namespace Query

/-- The three checks of a query. -/
theorem formula_eq_ok_iff {q : Query} {f : Formula} :
    q.formula = .ok f ↔
      q.hasTolerance = true ∧ q.hasIterations = true ∧ Formula.ofText q.function = .ok f := by
  rw [formula]
  cases q.hasTolerance <;> cases q.hasIterations <;> cases Formula.ofText q.function <;>
    simp [Except.mapError]

theorem maxIterations_pos {q : Query} (h : q.hasIterations = true) :
    0 < q.maxIterations.toInt := by
  have hlt : 0 < q.maxIterations := of_decide_eq_true h
  rwa [Int64.lt_iff_toInt_lt, Int64.toInt_zero] at hlt

end Query

namespace Service

variable {s : Service} {q : Query} {c : Cancellation} {f : Formula}

/-- The descent of the service on a formula after `k` iterations. -/
def stateAfter (s : Service) (f : Formula) (k : Nat) : Descent :=
  Descent.after (.ofFormula f) (s.descent f) k

/-- After `k` iterations, of which there is one at least, the values are within the tolerance, the
iterations are used up, or the check finds the query cancelled. -/
def EndsAt (s : Service) (q : Query) (c : Cancellation) (f : Formula) (k : Nat) : Prop :=
  1 ≤ k ∧ ((s.stateAfter f k).spread ≤ q.tolerance ∨ q.maxIterations.toInt ≤ k ∨
    c.atCheck (s.stateAfter f k).progress = true)

section Answered

variable {text : String} (hf : Formula.ofText text = .ok f) (s : Service)
include hf

/-- **No iteration fails.** -/
theorem neverFails_descent : (s.descent f).NeverFails (.ofFormula f) := by
  obtain ⟨tokens, -, ht⟩ := Formula.exists_scan_of_ofText hf
  exact Descent.neverFails (Formula.answers_ofFormula ht) rfl List.length_replicate

theorem iterations_stateAfter (k : Nat) : (s.stateAfter f k).iterations = k := by
  obtain ⟨tokens, -, ht⟩ := Formula.exists_scan_of_ofText hf
  have h := Descent.iterations_after (Formula.answers_ofFormula ht)
    (rfl : (s.descent f).search.simplex = none) List.length_replicate k
  exact h.trans (Nat.zero_add k)

/-- After each iteration the descent stands at the simplex of the trajectory. -/
theorem standsAt_stateAfter {k : Nat} (hk : 1 ≤ k) :
    (s.stateAfter f k).StandsAt f.valueAt f.dim (Simplex.trajectory f.valueAt
      (s.search.inEffect f.dim) (List.replicate f.dim s.startingCoordinate) k) := by
  obtain ⟨tokens, -, ht⟩ := Formula.exists_scan_of_ofText hf
  exact Descent.standsAt_after (Formula.answers_ofFormula ht)
    (rfl : (s.descent f).search.simplex = none) List.length_replicate hk

end Answered

/-- The descent runs to the first state in which it may end. -/
theorem exists_isLeast_endsAt (h : q.formula = .ok f) (s : Service) (c : Cancellation) :
    ∃ K, IsLeast {k | s.EndsAt q c f k} K ∧
      Descent.run (.ofFormula f) (stops q c) q.maxIterations.toInt.toNat (s.descent f) =
        .ok () (s.stateAfter f K) := by
  obtain ⟨-, hi, hf⟩ := Query.formula_eq_ok_iff.mp h
  have hpos := Query.maxIterations_pos hi
  obtain ⟨K, hK, hrun⟩ := Descent.exists_isLeast_run (neverFails_descent hf s) rfl
    (stops q c) (Int.pos_iff_toNat_pos.mp hpos)
  refine ⟨K, ?_, hrun⟩
  have hset : {k | s.EndsAt q c f k} = {k | 1 ≤ k ∧
      (stops q c (s.stateAfter f k).progress = true ∨ q.maxIterations.toInt.toNat ≤ k)} := by
    ext k
    have hbudget : q.maxIterations.toInt.toNat ≤ k ↔ q.maxIterations.toInt ≤ k := by omega
    have hspread : (s.stateAfter f k).progress.spread = (s.stateAfter f k).spread := rfl
    simp only [Set.mem_ofPred_eq, EndsAt, stops, hbudget, Bool.or_eq_true, decide_eq_true_eq,
      hspread]
    rw [or_right_comm, or_assoc]
  rw [hset]
  exact hK

/-- The outcome is concluded from where the descent ends. -/
theorem minimizeUnlessCancelled_of_run {d : Descent} (h : q.formula = .ok f)
    (hrun : Descent.run (.ofFormula f) (stops q c) q.maxIterations.toInt.toNat (s.descent f) =
      .ok () d) : s.minimizeUnlessCancelled q c = (conclude q c f d.progress).1 := by
  have hdescend : (s.descend q c f).1 = (conclude q c f d.progress).1 := by
    rw [descend, EStateM.run, hrun]
  rw [minimizeUnlessCancelled, answer, h]
  exact hdescend

/-! ### The three reasons to end -/

theorem conclude_of_spread_le {p : Progress} (h : p.spread ≤ q.tolerance) :
    (conclude q c f p).1 = .ok (minimum f p) := by
  rw [conclude, if_pos h]

theorem conclude_of_atEnd {p : Progress} (h : ¬ p.spread ≤ q.tolerance) (hc : c.atEnd p = true) :
    (conclude q c f p).1 = .error (.cancelled p.iterations) := by
  rw [conclude, if_neg h, if_pos hc]

theorem conclude_of_not_atEnd {p : Progress} (h : ¬ p.spread ≤ q.tolerance)
    (hc : c.atEnd p = false) :
    (conclude q c f p).1 = .error (.unconverged p.iterations p.value) := by
  rw [conclude, if_neg h, if_neg (by simp [hc])]

/-- **A query ends with the first reason to end, and its outcome names the foremost.** Let the
tolerance and the number of iterations be in order, the text a formula, and a cancellation last.
Then no iteration of the descent fails, and the descent runs for `K` iterations, where `K` is the
least number after which it may end. The outcome is a success if the spread is within the tolerance
then, whatever else holds. Otherwise the query is cancelled if it is found so after the end.
Otherwise it has not converged, and only then all iterations have been used. A query that is not to
be cancelled is one that never is. -/
theorem minimizeUnlessCancelled_ends_first (ht : q.hasTolerance = true)
    (hi : q.hasIterations = true) (hf : Formula.ofText q.function = .ok f) (hc : c.Lasting)
    (s : Service) :
    (∀ k, Descent.iterate (.ofFormula f) (s.stateAfter f k) = .ok () (s.stateAfter f (k + 1))) ∧
    (∃ K, IsLeast {k | s.EndsAt q c f k} K ∧ K ≤ q.maxIterations.toInt ∧
      Descent.run (.ofFormula f) (stops q c) q.maxIterations.toInt.toNat (s.descent f) =
        .ok () (s.stateAfter f K) ∧
      (s.stateAfter f K).iterations = K ∧
      ((s.stateAfter f K).spread ≤ q.tolerance →
        s.minimizeUnlessCancelled q c = .ok
          ⟨List.zipWith Coordinate.mk f.unknowns.names (s.stateAfter f K).point,
            (s.stateAfter f K).value⟩) ∧
      (¬ (s.stateAfter f K).spread ≤ q.tolerance → c.atEnd (s.stateAfter f K).progress = true →
        s.minimizeUnlessCancelled q c = .error (.cancelled K)) ∧
      (¬ (s.stateAfter f K).spread ≤ q.tolerance → c.atEnd (s.stateAfter f K).progress = false →
        s.minimizeUnlessCancelled q c = .error (.unconverged K (s.stateAfter f K).value) ∧
          K = q.maxIterations.toInt)) ∧
    s.minimize q = s.minimizeUnlessCancelled q .never := by
  have hq : q.formula = .ok f := Query.formula_eq_ok_iff.mpr ⟨ht, hi, hf⟩
  obtain ⟨K, hK, hrun⟩ := exists_isLeast_endsAt hq s c
  have houtcome := minimizeUnlessCancelled_of_run hq hrun
  have hcount : (s.stateAfter f K).progress.iterations = K := iterations_stateAfter hf s K
  -- the whole budget is one number of iterations after which the descent may end
  have hpos := Query.maxIterations_pos hi
  have hbudget : s.EndsAt q c f q.maxIterations.toInt.toNat :=
    ⟨by omega, .inr (.inl (by omega))⟩
  have hle : K ≤ q.maxIterations.toInt := by
    have hmin := hK.2 hbudget
    omega
  refine ⟨neverFails_descent hf s, ⟨K, hK, hle, hrun, iterations_stateAfter hf s K, ?_, ?_, ?_⟩,
    rfl⟩
  · intro hspread
    exact houtcome.trans (conclude_of_spread_le hspread)
  · intro hspread hend
    have hconcluded := conclude_of_atEnd (f := f) (p := (s.stateAfter f K).progress) hspread hend
    rw [houtcome, hconcluded, hcount]
  · intro hspread hend
    have hconcluded := conclude_of_not_atEnd (f := f) (p := (s.stateAfter f K).progress) hspread hend
    refine ⟨?_, ?_⟩
    · rw [houtcome, hconcluded, hcount]
      rfl
    · obtain ⟨-, hs | hk | hat⟩ := hK.1
      · exact absurd hs hspread
      · omega
      · rw [hc _ hat] at hend
        cases hend

/-- A query that is cancelled from the beginning makes one iteration of three, and is a success
even so if the spread is small enough by then. -/
theorem minimizeUnlessCancelled_cancelled_at_once :
    ∃ f, Formula.ofText "x1" = .ok f ∧
      Descent.run (.ofFormula f) (stops ⟨"x1", 1, 3⟩ (.duringMove 0)) 3 (descent {} f) =
        .ok () (stateAfter {} f 1) ∧
      ((∃ m, minimizeUnlessCancelled {} ⟨"x1", 1, 3⟩ (.duringMove 0) = .ok m) ∨
        minimizeUnlessCancelled {} ⟨"x1", 1, 3⟩ (.duringMove 0) = .error (.cancelled 1)) := by
  let q : Query := ⟨"x1", 1, 3⟩
  have hf : Formula.ofText "x1" = .ok ⟨[.var "x1"], ⟨["x1"]⟩⟩ := rfl
  obtain ⟨-, ⟨K, hK, -, hrun, -, hok, hcancelled, -⟩, -⟩ := minimizeUnlessCancelled_ends_first
    (by decide : q.hasTolerance = true) (by decide) hf (Cancellation.lasting_duringMove 0) {}
  have hone : EndsAt {} q (.duringMove 0) ⟨[.var "x1"], ⟨["x1"]⟩⟩ 1 := ⟨le_rfl, .inr (.inr rfl)⟩
  obtain rfl : K = 1 := le_antisymm (hK.2 hone) hK.1.1
  refine ⟨_, hf, hrun, ?_⟩
  by_cases hspread : (stateAfter {} ⟨[.var "x1"], ⟨["x1"]⟩⟩ 1).spread ≤ q.tolerance
  · exact .inl ⟨_, hok hspread⟩
  · exact .inr (hcancelled hspread rfl)

end Service

end Downhill
