import Downhill.Proofs.Service.Coordinates
import Downhill.Proofs.Service.Refusal
import Downhill.Proofs.Simplex.Least

/-!
# More iterations and wider tolerances

Queries that differ only in their tolerance and in their number of iterations are answered from one
descent: neither changes where it goes, only how far. With more iterations it ends no sooner, with a
wider tolerance no later.

What is proved: leeway never hurts. What succeeds with few iterations succeeds with more in the same
way, and with a wider tolerance too, perhaps earlier and then at a value that is no less. What has not
converged has reached no better value than it does with more iterations (`minimize_monotone`).
-/

namespace Downhill

namespace Service

variable {s : Service} {q : Query} {f : Formula} {j k : Nat}

/-- **The value reached never rises** from one iteration to a later one. -/
theorem value_stateAfter_le {text : String} (hf : Formula.ofText text = .ok f) (s : Service)
    (hj : 1 ≤ j) (hjk : j ≤ k) : (s.stateAfter f k).value ≤ (s.stateAfter f j).value := by
  rw [(standsAt_stateAfter hf s hj).value, (standsAt_stateAfter hf s (hj.trans hjk)).value]
  exact Simplex.best_trajectory_le hjk

/-- Where a descent may end, it may end with a wider tolerance or with fewer iterations. -/
theorem EndsAt.mono {q' : Query} (ht : q.tolerance ≤ q'.tolerance)
    (hm : q'.maxIterations ≤ q.maxIterations) (h : s.EndsAt q .never f k) : s.EndsAt q' .never f k := by
  obtain ⟨hk, hspread | hall | hcancelled⟩ := h
  · exact ⟨hk, .inl (float_le_trans hspread ht)⟩
  · exact ⟨hk, .inr (.inl ((Int64.le_iff_toInt_le.mp hm).trans hall))⟩
  · cases hcancelled

/-- A query that is never cancelled ends as soon as it may: in a success if the spread is within the
tolerance then, and otherwise with all its iterations used. -/
theorem exists_isLeast_minimize (h : q.formula = .ok f) (s : Service) :
    ∃ K, IsLeast {k | s.EndsAt q .never f k} K ∧
      ((s.stateAfter f K).spread ≤ q.tolerance ∧
          s.minimize q = .ok (minimum f (s.stateAfter f K).progress) ∨
        ¬ (s.stateAfter f K).spread ≤ q.tolerance ∧ q.maxIterations.toInt ≤ K ∧
          s.minimize q = .error (.unconverged K (s.stateAfter f K).value)) := by
  obtain ⟨-, -, hf⟩ := Query.formula_eq_ok_iff.mp h
  obtain ⟨K, hK, hrun⟩ := exists_isLeast_endsAt h s .never
  have houtcome : s.minimize q = (conclude q .never f (s.stateAfter f K).progress).1 :=
    minimizeUnlessCancelled_of_run h hrun
  refine ⟨K, hK, ?_⟩
  by_cases hspread : (s.stateAfter f K).spread ≤ q.tolerance
  · exact .inl ⟨hspread, houtcome.trans (conclude_of_spread_le hspread)⟩
  · obtain ⟨-, hs | hall | hcancelled⟩ := hK.1
    · exact absurd hs hspread
    · have hcount : (s.stateAfter f K).progress.iterations = K := iterations_stateAfter hf s K
      have hconcluded : (conclude q .never f (s.stateAfter f K).progress).1 =
          .error (.unconverged (s.stateAfter f K).progress.iterations
            (s.stateAfter f K).progress.value) := conclude_of_not_atEnd hspread rfl
      rw [hcount] at hconcluded
      exact .inr ⟨hspread, hall, houtcome.trans hconcluded⟩
    · cases hcancelled

/-- A query with an outcome that does not blame it is in order. -/
theorem exists_formula_of_minimize (h : ∀ r, s.minimize q = .error r → r.kind ≠ .wrongQuery) :
    ∃ f, q.formula = .ok f := by
  rcases q.exists_formula_or_firstFault with hf | ⟨r, hr⟩
  · exact hf
  · exact absurd hr.kind (h r (answer_of_firstFault hr s .never).1)

theorem exists_formula_of_ok {r : Minimum} (h : s.minimize q = .ok r) :
    ∃ f, q.formula = .ok f := by
  refine exists_formula_of_minimize (s := s) fun _ hr => ?_
  rw [h] at hr
  cases hr

theorem exists_formula_of_unconverged {k : Nat} {y : Float}
    (h : s.minimize q = .error (.unconverged k y)) : ∃ f, q.formula = .ok f := by
  refine exists_formula_of_minimize (s := s) fun _ hr => ?_
  rw [h] at hr
  cases hr
  exact Refusal.Class.noConfusion

/-! ### Two queries -/

section Leeway

variable {text : String} {tol tol' : Float} {m m' : Int64}

/-- A query in order stays so with a wider tolerance that is finite and with more iterations. -/
theorem formula_of_leeway (ht : tol ≤ tol') (hfin : tol'.isFinite = true) (hm : m ≤ m')
    (h : Query.formula ⟨text, tol, m⟩ = .ok f) : Query.formula ⟨text, tol', m'⟩ = .ok f := by
  obtain ⟨htol, hi, hf⟩ := Query.formula_eq_ok_iff.mp h
  have hpos : 0 < tol := of_decide_eq_true (Bool.and_eq_true_iff.mp htol).2
  have hpos' : 0 < tol' := float_lt_of_lt_of_le rfl hpos ht
  have hsome : 0 < m := of_decide_eq_true hi
  have hsome' : 0 < m' := Int64.lt_of_lt_of_le hsome hm
  refine Query.formula_eq_ok_iff.mpr ⟨?_, decide_eq_true hsome', hf⟩
  show (tol'.isFinite && decide (0 < tol')) = true
  rw [hfin, decide_eq_true hpos', Bool.and_self]

/-- **Leeway keeps a success.** It may come earlier with a wider tolerance, at a value that is no
less, and is the same with the same tolerance. -/
theorem minimize_ok_of_leeway (ht : tol ≤ tol') (hfin : tol'.isFinite = true) (hm : m ≤ m')
    {r : Minimum} (h : s.minimize ⟨text, tol, m⟩ = .ok r) :
    ∃ r', s.minimize ⟨text, tol', m'⟩ = .ok r' ∧ r.value ≤ r'.value ∧ (tol' = tol → r' = r) := by
  obtain ⟨f, hq⟩ := exists_formula_of_ok h
  obtain ⟨-, -, hf⟩ := Query.formula_eq_ok_iff.mp hq
  obtain ⟨K, hK, ⟨hspread, hok⟩ | ⟨-, -, herr⟩⟩ := exists_isLeast_minimize hq s
  · obtain rfl := Except.ok.inj (hok.symm.trans h)
    obtain ⟨K', hK', hcases⟩ := exists_isLeast_minimize (formula_of_leeway ht hfin hm hq) s
    -- the descent may end with the leeway where it has ended without
    have hends' : s.EndsAt ⟨text, tol', m'⟩ .never f K := ⟨hK.1.1, .inl (float_le_trans hspread ht)⟩
    have hle : K' ≤ K := hK'.2 hends'
    obtain ⟨-, hok'⟩ | ⟨hspread', hall, -⟩ := hcases
    · refine ⟨_, hok', value_stateAfter_le hf s hK'.1.1 hle, ?_⟩
      rintro rfl
      have hends : s.EndsAt ⟨text, tol', m⟩ .never f K' :=
        EndsAt.mono (q := ⟨text, tol', m'⟩) ht hm hK'.1
      rw [le_antisymm hle (hK.2 hends)]
    · -- with all iterations used it would have ended in the same state
      have hmore : m.toInt ≤ m'.toInt := Int64.le_iff_toInt_le.mp hm
      have hends : s.EndsAt ⟨text, tol, m⟩ .never f K' := ⟨hK'.1.1, .inr (.inl (hmore.trans hall))⟩
      have hge : K ≤ K' := hK.2 hends
      obtain rfl : K' = K := le_antisymm hle hge
      exact absurd (float_le_trans hspread ht) hspread'
  · rw [h] at herr
    cases herr

/-- **With more iterations the best value is no worse**, be it a success then or not. -/
theorem minimize_unconverged_of_leeway (hm : m ≤ m') {k : Nat} {y : Float}
    (h : s.minimize ⟨text, tol, m⟩ = .error (.unconverged k y)) :
    (∃ r, s.minimize ⟨text, tol, m'⟩ = .ok r ∧ r.value ≤ y) ∨
      ∃ k' y', s.minimize ⟨text, tol, m'⟩ = .error (.unconverged k' y') ∧ y' ≤ y := by
  obtain ⟨f, hq⟩ := exists_formula_of_unconverged h
  obtain ⟨htol, -, hf⟩ := Query.formula_eq_ok_iff.mp hq
  obtain ⟨K, hK, ⟨-, hok⟩ | ⟨-, -, herr⟩⟩ := exists_isLeast_minimize hq s
  · rw [h] at hok
    cases hok
  · obtain ⟨rfl, rfl⟩ := Refusal.unconverged.inj (Except.error.inj (herr.symm.trans h))
    have hfin : tol.isFinite = true := (Bool.and_eq_true_iff.mp htol).1
    have hrefl : tol ≤ tol := float_le_refl (isNaN_of_isFinite hfin)
    obtain ⟨K', hK', hcases⟩ := exists_isLeast_minimize (formula_of_leeway hrefl hfin hm hq) s
    have hends : s.EndsAt ⟨text, tol, m⟩ .never f K' :=
      EndsAt.mono (q := ⟨text, tol, m'⟩) hrefl hm hK'.1
    have hle := value_stateAfter_le hf s hK.1.1 (hK.2 hends)
    obtain ⟨-, hok'⟩ | ⟨-, -, herr'⟩ := hcases
    · exact .inl ⟨_, hok', hle⟩
    · exact .inr ⟨_, _, herr', hle⟩

end Leeway

/-- **Leeway never hurts.** Let a text be queried without cancellation, with a tolerance `tol` or one
that is no less and finite, and with `m` iterations or no fewer. A success is the same with more
iterations, and remains a success with the wider tolerance, at a value that is no less. Where the
tolerance has not been met, it is met with more iterations at a value that is no greater, or is missed
again with such a value. -/
theorem minimize_monotone (s : Service) (text : String) {tol tol' : Float} {m m' : Int64}
    (ht : tol ≤ tol') (hfin : tol'.isFinite = true) (hm : m ≤ m') :
    (∀ r, s.minimize ⟨text, tol, m⟩ = .ok r →
      s.minimize ⟨text, tol, m'⟩ = .ok r ∧
      ∃ r', s.minimize ⟨text, tol', m⟩ = .ok r' ∧ s.minimize ⟨text, tol', m'⟩ = .ok r' ∧
        r.value ≤ r'.value) ∧
    (∀ k y, s.minimize ⟨text, tol, m⟩ = .error (.unconverged k y) →
      (∃ r, s.minimize ⟨text, tol, m'⟩ = .ok r ∧ r.value ≤ y) ∨
      ∃ k' y', s.minimize ⟨text, tol, m'⟩ = .error (.unconverged k' y') ∧ y' ≤ y) := by
  -- more iterations with the same tolerance
  have hmore : ∀ τ r, s.minimize ⟨text, τ, m⟩ = .ok r → s.minimize ⟨text, τ, m'⟩ = .ok r := by
    intro τ r hr
    obtain ⟨f, hq⟩ := exists_formula_of_ok hr
    have hτ : τ.isFinite = true :=
      (Bool.and_eq_true_iff.mp (Query.formula_eq_ok_iff.mp hq).1).1
    obtain ⟨r', hr', -, heq⟩ :=
      minimize_ok_of_leeway (float_le_refl (isNaN_of_isFinite hτ)) hτ hm hr
    exact heq rfl ▸ hr'
  refine ⟨fun r hr => ?_, fun k y hr => minimize_unconverged_of_leeway hm hr⟩
  obtain ⟨r', hr', hle, -⟩ := minimize_ok_of_leeway ht hfin (Int64.le_refl m) hr
  exact ⟨hmore tol r hr, r', hr', hmore tol' r' hr', hle⟩

/-- What one iteration of `x1-1/x1` finds within one is found with a thousand as well, and within
five. -/
theorem minimize_monotone_slope :
    let s : Service := { search := { relativeStep := 1 } }
    s.minimize ⟨"x1-1/x1", 1, 1000⟩ = .ok ⟨[⟨"x1", 1⟩], 0⟩ ∧
      ∃ r, s.minimize ⟨"x1-1/x1", 5, 1000⟩ = .ok r ∧ 0 ≤ r.value := by
  intro s
  have hf : Formula.ofText "x1-1/x1" = .ok slope := by
    rw [Formula.ofText_of_scan scan_slope]
    rfl
  have hq : Query.formula ⟨"x1-1/x1", 1, 1⟩ = .ok slope :=
    Query.formula_eq_ok_iff.mpr ⟨by decide, by decide, hf⟩
  have hone : s.minimize ⟨"x1-1/x1", 1, 1⟩ = .ok ⟨[⟨"x1", 1⟩], 0⟩ :=
    minimizeUnlessCancelled_of_trajectory_one (s := s) hq rfl .never trajectory_slope
      (by decide +kernel)
  have hle : (1 : Float) ≤ 5 := by decide
  have hfin : (5 : Float).isFinite = true := by decide
  have hm : (1 : Int64) ≤ 1000 := by decide
  obtain ⟨hmore, r, -, hr, hvalue⟩ := (minimize_monotone s "x1-1/x1" hle hfin hm).1 _ hone
  exact ⟨hmore, r, hr, hvalue⟩

end Service

end Downhill
