import Downhill.Proofs.Float.Difference
import Downhill.Proofs.Service.Outcome

/-!
# Constants

A formula without variables has a simplex of a single vertex, and no iteration moves it. How far its
values are apart is the value less itself, and this is zero only if the value is finite.

What is proved: a finite constant is a minimum after one iteration, and one that is not finite has no
minimum: its spread is no number after every iteration, and all of them are used up
(`minimize_constant`).
-/

namespace Downhill

namespace Simplex

/-- In no dimension, every simplex of the trajectory is the one vertex there is. -/
theorem trajectory_nil (value : Point → Float) (o : Options) (k : Nat) :
    trajectory value o [] k = ⟨vertexAt value [], []⟩ := by
  induction k with
  | zero =>
    have hnone : (Search.neighbours o []).map (vertexAt value) = [] := rfl
    rw [trajectory, first, hnone]
    exact ranked_of_pairwise (List.pairwise_singleton _ _)
  | succ k ih =>
    rw [trajectory, ih]
    rfl

end Simplex

namespace Service

open Simplex

variable {s : Service} {q : Query} {f : Formula}

/-- After an iteration, the descent on a constant stands at the one vertex there is. -/
theorem standsAt_of_constant {text : String} (hf : Formula.ofText text = .ok f)
    (hconst : f.dim = 0) (s : Service) {k : Nat} (hk : 1 ≤ k) :
    (s.stateAfter f k).StandsAt f.valueAt f.dim ⟨vertexAt f.valueAt [], []⟩ := by
  have hst := standsAt_stateAfter hf s hk
  have hx : List.replicate f.dim s.startingCoordinate = [] := by
    rw [hconst]
    rfl
  rwa [hx, trajectory_nil] at hst

/-- The spread of a constant is its value, as it ranks, less itself. -/
theorem spread_of_constant {text : String} (hf : Formula.ofText text = .ok f)
    (hconst : f.dim = 0) (s : Service) {k : Nat} (hk : 1 ≤ k) :
    (s.stateAfter f k).spread =
      rankedValue (f.valueAt []) - rankedValue (f.valueAt []) :=
  (standsAt_of_constant hf hconst s hk).spread

/-- **A finite constant is a minimum after one iteration.** -/
theorem minimize_of_finite_constant (hq : q.formula = .ok f) (hconst : f.dim = 0)
    (hfin : (f.valueAt []).isFinite = true) (s : Service) :
    Descent.run (.ofFormula f) (stops q .never) q.maxIterations.toInt.toNat (s.descent f) =
        .ok () (s.stateAfter f 1) ∧
      (s.stateAfter f 1).spread = 0 ∧ s.minimize q = .ok ⟨[], f.valueAt []⟩ := by
  obtain ⟨ht, -, hf⟩ := Query.formula_eq_ok_iff.mp hq
  have hspread : (s.stateAfter f 1).spread = 0 := by
    rw [spread_of_constant hf hconst s le_rfl, rankedValue_of_isFinite hfin]
    exact sub_self_of_isFinite hfin
  have hwithin : (s.stateAfter f 1).spread ≤ q.tolerance := by
    obtain ⟨hfinite, hpos⟩ := Bool.and_eq_true_iff.mp ht
    have hnum := isNaN_of_isFinite hfinite
    rw [hspread]
    exact float_le_of_lt rfl hnum (of_decide_eq_true hpos)
  obtain ⟨K, hK, hrun⟩ := exists_isLeast_endsAt hq s .never
  have hone : s.EndsAt q .never f 1 := ⟨le_rfl, .inl hwithin⟩
  obtain rfl : K = 1 := le_antisymm (hK.2 hone) hK.1.1
  refine ⟨hrun, hspread, ?_⟩
  have hst := standsAt_of_constant hf hconst s le_rfl
  have hpoint : (s.stateAfter f 1).progress.point = [] := hst.point
  have hvalue : (s.stateAfter f 1).progress.value = f.valueAt [] :=
    hst.value.trans (rankedValue_of_isFinite hfin)
  have houtcome := (minimizeUnlessCancelled_of_run hq hrun).trans (conclude_of_spread_le hwithin)
  rw [minimum, hpoint, hvalue, List.zipWith_nil_right] at houtcome
  exact houtcome

/-- **A constant that is not finite has no minimum**, and all iterations are used up. -/
theorem minimize_of_infinite_constant (hq : q.formula = .ok f) (hconst : f.dim = 0)
    (hfin : (f.valueAt []).isFinite = false) (s : Service) :
    (∀ k, 1 ≤ k → (s.stateAfter f k).spread.isNaN = true) ∧
      s.minimize q = .error (.unconverged q.maxIterations.toInt.toNat infinity) := by
  obtain ⟨-, hi, hf⟩ := Query.formula_eq_ok_iff.mp hq
  have hpos := Query.maxIterations_pos hi
  have hspread : ∀ k, 1 ≤ k → (s.stateAfter f k).spread.isNaN = true := by
    intro k hk
    rw [spread_of_constant hf hconst s hk, rankedValue_of_not_isFinite hfin]
    exact isNaN_infinity_sub_infinity
  have hapart : ∀ k, 1 ≤ k → ¬ (s.stateAfter f k).spread ≤ q.tolerance := by
    intro k hk h
    have hnum := (isNaN_of_le h).1
    rw [hspread k hk] at hnum
    cases hnum
  refine ⟨hspread, ?_⟩
  obtain ⟨K, ⟨⟨hK, hends⟩, hleast⟩, hrun⟩ := exists_isLeast_endsAt hq s .never
  -- only the number of iterations ends the descent
  have hall : K = q.maxIterations.toInt.toNat := by
    have hbudget : s.EndsAt q .never f q.maxIterations.toInt.toNat :=
      ⟨by omega, .inr (.inl (by omega))⟩
    have hle := hleast hbudget
    rcases hends with h | h | h
    · exact absurd h (hapart K hK)
    · omega
    · cases h
  have hcount : (s.stateAfter f K).progress.iterations = K := iterations_stateAfter hf s K
  have hvalue : (s.stateAfter f K).progress.value = infinity :=
    (standsAt_of_constant hf hconst s hK).value.trans (rankedValue_of_not_isFinite hfin)
  have houtcome := (minimizeUnlessCancelled_of_run hq hrun).trans
    (conclude_of_not_atEnd (hapart K hK) rfl)
  rw [hcount, hvalue, hall] at houtcome
  exact houtcome

/-- **What becomes of a constant depends on whether it is finite.** A finite constant is a minimum
after one iteration, after which the spread is zero. One that is not finite has a spread that is no
number after every iteration, and has not converged when all of them have been used. -/
theorem minimize_constant (ht : q.hasTolerance = true) (hi : q.hasIterations = true)
    (hf : Formula.ofText q.function = .ok f) (hconst : f.dim = 0) (s : Service) :
    ∃ y, f.value (.ofPoint f.unknowns []) = .ok y ∧
      (y.isFinite = true →
        Descent.run (.ofFormula f) (stops q .never) q.maxIterations.toInt.toNat (s.descent f) =
          .ok () (s.stateAfter f 1) ∧
        (s.stateAfter f 1).spread = 0 ∧ s.minimize q = .ok ⟨[], y⟩) ∧
      (y.isFinite = false →
        (∀ k, 1 ≤ k → (s.stateAfter f k).spread.isNaN = true) ∧
        s.minimize q = .error (.unconverged q.maxIterations.toInt.toNat infinity)) := by
  obtain ⟨tokens, -, htokens⟩ := Formula.exists_scan_of_ofText hf
  have hq : q.formula = .ok f := Query.formula_eq_ok_iff.mpr ⟨ht, hi, hf⟩
  exact ⟨f.valueAt [], Formula.value_ofPoint htokens hconst.symm,
    fun hfin => minimize_of_finite_constant hq hconst hfin s,
    fun hfin => minimize_of_infinite_constant hq hconst hfin s⟩

/-- One divided by zero has not converged after a thousand iterations. -/
theorem minimize_one_over_zero :
    Formula.ofText "1/0" = .ok ⟨[.number 1, .number 0, .operator .div], ⟨[]⟩⟩ ∧
      Service.minimize {} ⟨"1/0", 1e-6, 1000⟩ = .error (.unconverged 1000 infinity) := by
  have hcut : cut (condense "1/0") = [.run ['1'], .separator (.operator .div), .run ['0']] := rfl
  have hone : Decimal.readNumeral? ['1'] = some 1 := by decide +kernel
  have hzero : Decimal.readNumeral? ['0'] = some 0 := by decide +kernel
  have hscan : scan "1/0" = .ok [.number 1, .operator .div, .number 0] := by
    rw [scan, hcut]
    simp [Piece.token, operand?, isVariableName, hone, hzero]
    rfl
  have hf : Formula.ofText "1/0" = .ok ⟨[.number 1, .number 0, .operator .div], ⟨[]⟩⟩ := by
    rw [Formula.ofText_of_scan hscan]
    rfl
  obtain ⟨y, hy, -, hinf⟩ := minimize_constant (q := ⟨"1/0", 1e-6, 1000⟩) (by decide) (by decide)
    hf rfl {}
  obtain rfl : 1 / 0 = y := Except.ok.inj hy
  exact ⟨hf, (hinf (by decide +kernel)).2⟩

end Service

end Downhill
