import Downhill.Proofs.Service.Outcome
import Downhill.Proofs.Simplex.Run

/-!
# Queries that are refused

A query may be wrong in three ways, and is refused for the first of them before anything is asked.
What is not wrong has an outcome, whatever numbers the options and the objective come up with: the
minimum, the note that the iterations did not suffice, or that the query was cancelled.

What is proved: a query is refused as wrong exactly if it is, for its first fault, and no search has
begun by then; otherwise the outcome is one of the three. The search is never broken, and the descent
that answers a query can be run in place, with all accesses made
(`answer_refuses_exactly_wrong_queries`).
-/

namespace Downhill

/-- A number that is not finite is no number or infinite. -/
theorem isFinite_eq_false_iff {a : Float} :
    a.isFinite = false ↔ a.isNaN = true ∨ a.isInf = true := by
  change a.toModel.unpack.isFinite = false ↔
    a.toModel.unpack.isNaN = true ∨ a.toModel.unpack.isInf = true
  generalize a.toModel.unpack = u
  cases u with
  | notANumber => exact ⟨fun _ => .inl rfl, fun _ => rfl⟩
  | infinity s => exact ⟨fun _ => .inr rfl, fun _ => rfl⟩
  | zero s =>
    change true = false ↔ false = true ∨ false = true
    simp
  | finite s m e hm =>
    change true = false ↔ false = true ∨ false = true
    simp

namespace Query

variable {q : Query}

/-- The tolerance is no number, infinite, or not above zero. -/
def HasBadTolerance (q : Query) : Prop :=
  q.tolerance.isNaN = true ∨ q.tolerance.isInf = true ∨ q.tolerance ≤ 0

/-- The first thing that is wrong with a query: its tolerance, its number of iterations or its
text. -/
inductive FirstFault (q : Query) : Refusal → Prop
  /-- The tolerance is wrong, whatever else is. -/
  | tolerance (h : q.HasBadTolerance) : q.FirstFault (.badTolerance q.tolerance)
  /-- The tolerance is in order, and there may be no iteration. -/
  | limit (ht : ¬ q.HasBadTolerance) (h : q.maxIterations ≤ 0) :
      q.FirstFault (.badLimit q.maxIterations)
  /-- The numbers are in order, and the text is no formula. -/
  | function (ht : ¬ q.HasBadTolerance) (hi : ¬ q.maxIterations ≤ 0) {defect : Defect}
      (h : Formula.ofText q.function = .error defect) : q.FirstFault (.notAFormula defect)

theorem hasTolerance_eq_false_iff : q.hasTolerance = false ↔ q.HasBadTolerance := by
  rw [hasTolerance, Bool.and_eq_false_iff, isFinite_eq_false_iff, decide_eq_false_iff_not,
    HasBadTolerance, or_assoc]
  by_cases hnum : q.tolerance.isNaN = true
  · exact ⟨fun _ => .inl hnum, fun _ => .inl hnum⟩
  · have hlt : ¬ 0 < q.tolerance ↔ q.tolerance ≤ 0 :=
      float_not_lt_iff rfl (eq_false_of_ne_true hnum)
    rw [hlt]

theorem hasIterations_eq_false_iff : q.hasIterations = false ↔ q.maxIterations ≤ 0 := by
  rw [hasIterations, decide_eq_false_iff_not, Int64.lt_iff_toInt_lt, Int64.le_iff_toInt_le, not_lt]

/-- **A query is without a formula for its first fault.** -/
theorem formula_eq_error_iff {r : Refusal} : q.formula = .error r ↔ q.FirstFault r := by
  constructor
  · intro h
    rw [formula] at h
    cases ht : q.hasTolerance with
    | false =>
      rw [ht] at h
      cases h
      exact .tolerance (hasTolerance_eq_false_iff.mp ht)
    | true =>
      have hgood : ¬ q.HasBadTolerance := by
        rw [← hasTolerance_eq_false_iff, ht]
        simp
      cases hi : q.hasIterations with
      | false =>
        rw [ht, hi] at h
        cases h
        exact .limit hgood (hasIterations_eq_false_iff.mp hi)
      | true =>
        have hsome : ¬ q.maxIterations ≤ 0 := by
          rw [← hasIterations_eq_false_iff, hi]
          simp
        rw [ht, hi] at h
        cases hf : Formula.ofText q.function with
        | ok f =>
          rw [hf] at h
          cases h
        | error defect =>
          rw [hf] at h
          cases h
          exact .function hgood hsome hf
  · intro h
    cases h with
    | tolerance h =>
      rw [formula, hasTolerance_eq_false_iff.mpr h]
      rfl
    | limit ht h =>
      rw [← hasTolerance_eq_false_iff, Bool.not_eq_false] at ht
      rw [formula, ht, hasIterations_eq_false_iff.mpr h]
      rfl
    | function ht hi h =>
      rw [← hasTolerance_eq_false_iff, Bool.not_eq_false] at ht
      rw [← hasIterations_eq_false_iff, Bool.not_eq_false] at hi
      rw [formula, ht, hi, h]
      rfl

/-- All faults are of a query that is wrong. -/
theorem FirstFault.kind {r : Refusal} (h : q.FirstFault r) : r.kind = .wrongQuery := by
  cases h <;> rfl

theorem exists_formula_or_firstFault (q : Query) :
    (∃ f, q.formula = .ok f) ∨ ∃ r, q.FirstFault r := by
  cases h : q.formula with
  | ok f => exact .inl ⟨f, rfl⟩
  | error r => exact .inr ⟨r, formula_eq_error_iff.mp h⟩

end Query

namespace Service

variable {s : Service} {q : Query} {c : Cancellation} {f : Formula}

/-- A query that is wrong is refused for its first fault, and no search begins. -/
theorem answer_of_firstFault {r : Refusal} (h : q.FirstFault r) (s : Service) (c : Cancellation) :
    (s.answer q c).1 = .error r ∧
      ∀ e ∈ (s.answer q c).2, e = .received q ∨ ∃ defect, e = .notCompiled q.function defect := by
  rw [answer, Query.formula_eq_error_iff.mpr h]
  cases h with
  | tolerance h => simp
  | limit ht h => simp
  | function ht hi h => simp

/-- Where a query has a formula, the outcome is a minimum or that there is none yet. -/
theorem minimizeUnlessCancelled_of_formula (h : q.formula = .ok f) (s : Service)
    (c : Cancellation) :
    (∃ m, s.minimizeUnlessCancelled q c = .ok m) ∨
    (∃ k y, s.minimizeUnlessCancelled q c = .error (.unconverged k y)) ∨
    (∃ k, s.minimizeUnlessCancelled q c = .error (.cancelled k)) := by
  obtain ⟨K, -, hrun⟩ := exists_isLeast_endsAt h s c
  rw [minimizeUnlessCancelled_of_run h hrun]
  by_cases hspread : (s.stateAfter f K).progress.spread ≤ q.tolerance
  · exact .inl ⟨_, conclude_of_spread_le hspread⟩
  · cases hend : c.atEnd (s.stateAfter f K).progress with
    | true => exact .inr (.inr ⟨_, conclude_of_atEnd hspread hend⟩)
    | false => exact .inr (.inl ⟨_, _, conclude_of_not_atEnd hspread hend⟩)

/-- **The descent that answers a query can be run in place.** -/
theorem exists_iterations_descent {text : String} (hf : Formula.ofText text = .ok f) (s : Service)
    (k : Nat) :
    ∃ t, InPlace.iterations (.ofFormula f) k
        (InPlace.start (.ofFormula f) s.search (List.replicate f.dim s.startingCoordinate)) =
          .ok () t ∧
      t.point = (s.stateAfter f k).point ∧ t.slots.spread? = some (s.stateAfter f k).spread := by
  obtain ⟨tokens, -, htokens⟩ := Formula.exists_scan_of_ofText hf
  obtain ⟨t, hrun, ht⟩ := InPlace.exists_iterations (Formula.answers_ofFormula htokens) s.search
    (List.length_replicate : (List.replicate f.dim s.startingCoordinate).length = f.dim) k
  refine ⟨t, hrun, ?_⟩
  cases k with
  | zero =>
    obtain rfl := (EStateM.Result.ok.inj hrun).2
    exact ⟨rfl, rfl⟩
  | succ k =>
    have hst := standsAt_stateAfter hf s (Nat.succ_pos k)
    rw [hst.point, hst.spread]
    exact ⟨ht.point, ht.spread?⟩

/-- **Exactly the wrong queries are refused**, for the first of their faults, and before a search
begins. Otherwise the outcome is a minimum, or that the iterations did not suffice, or that the query
was cancelled. In no case is the search broken: its starting point has the dimension of the formula,
and in place, where the descent stands after every number of iterations is reached without an access
that cannot be made. -/
theorem answer_refuses_exactly_wrong_queries (s : Service) (q : Query) (c : Cancellation) :
    (∀ r, q.FirstFault r → (s.answer q c).1 = .error r ∧
      ∀ e ∈ (s.answer q c).2, e = .received q ∨ ∃ defect, e = .notCompiled q.function defect) ∧
    ((∃ r, s.minimizeUnlessCancelled q c = .error r ∧ r.kind = .wrongQuery) ↔
      ∃ r, q.FirstFault r) ∧
    ((¬ ∃ r, q.FirstFault r) →
      (∃ m, s.minimizeUnlessCancelled q c = .ok m) ∨
      (∃ k y, s.minimizeUnlessCancelled q c = .error (.unconverged k y)) ∨
      (∃ k, s.minimizeUnlessCancelled q c = .error (.cancelled k))) ∧
    (∀ why, s.minimizeUnlessCancelled q c ≠ .error (.faulty why)) ∧
    (∀ f, Formula.ofText q.function = .ok f →
      Descent.start (.ofFormula f) s.search
        (some (List.replicate f.dim s.startingCoordinate)) = .ok (s.descent f) ∧
      ∀ k, ∃ t, InPlace.iterations (.ofFormula f) k
          (InPlace.start (.ofFormula f) s.search (List.replicate f.dim s.startingCoordinate)) =
            .ok () t ∧
        t.point = (s.stateAfter f k).point ∧
        t.slots.spread? = some (s.stateAfter f k).spread) := by
  have hrefused := fun r (h : q.FirstFault r) => answer_of_firstFault h s c
  refine ⟨hrefused, ⟨?_, ?_⟩, ?_, ?_, ?_⟩
  · rintro ⟨r, hr, hkind⟩
    rcases q.exists_formula_or_firstFault with ⟨f, hf⟩ | hfault
    · rcases minimizeUnlessCancelled_of_formula hf s c with ⟨m, h⟩ | ⟨k, y, h⟩ | ⟨k, h⟩
      all_goals
        rw [hr] at h
        cases h
      all_goals cases hkind
    · exact hfault
  · rintro ⟨r, hr⟩
    exact ⟨r, (hrefused r hr).1, hr.kind⟩
  · intro hnone
    obtain ⟨f, hf⟩ := q.exists_formula_or_firstFault.resolve_right hnone
    exact minimizeUnlessCancelled_of_formula hf s c
  · intro why h
    rcases q.exists_formula_or_firstFault with ⟨f, hf⟩ | ⟨r, hr⟩
    · rcases minimizeUnlessCancelled_of_formula hf s c with ⟨m, h'⟩ | ⟨k, y, h'⟩ | ⟨k, h'⟩
      all_goals
        rw [h] at h'
        cases h'
    · have hkind := hr.kind
      obtain rfl : .faulty why = r := Except.error.inj (h.symm.trans (hrefused r hr).1)
      cases hkind
  · intro f hf
    exact ⟨if_pos List.length_replicate, exists_iterations_descent hf s⟩

/-- Where everything is wrong, it is the tolerance that is reported. -/
theorem answer_refuses_tolerance_first :
    minimizeUnlessCancelled {} ⟨"x1+", 0, 0⟩ .never = .error (.badTolerance 0) ∧
      Formula.ofText "x1+" = .error (.missingOperand .add) := by
  have hbad : Query.HasBadTolerance ⟨"x1+", 0, 0⟩ := .inr (.inr (by decide))
  exact ⟨((answer_refuses_exactly_wrong_queries {} ⟨"x1+", 0, 0⟩ .never).1 _ (.tolerance hbad)).1, rfl⟩

end Service

end Downhill
