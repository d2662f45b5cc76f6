import Downhill.Proofs.Formula.Renaming
import Downhill.Proofs.Service.Outcome

/-!
# Queries under other names

A query is asked once more with other names for the variables of its text, different ones for
different variables. The coordinates belong to the variables by the order of their first appearance,
and that order is that of the tokens, not that of the names.

What is proved: nothing between the text and the outcome depends on the names. The text is a formula
with the new names as it is with the old ones, or has the same defect, and the outcome is the same
whatever the service, the tolerance, the number of iterations and the cancellation, except that a
minimum lists the new names (`minimizeUnlessCancelled_rename`).
-/

namespace Downhill

/-- The coordinate of a variable with another name. -/
def Coordinate.rename (ρ : String → String) (v : Coordinate) : Coordinate :=
  { v with name := ρ v.name }

/-- The minimum with other names for the variables, in the same order. -/
def Minimum.rename (ρ : String → String) (m : Minimum) : Minimum :=
  { m with coordinates := m.coordinates.map (Coordinate.rename ρ) }

variable {ρ : String → String} {text text' : String} {tol : Float} {m : Int64}
  {tokens : List Token} {f : Formula}

/-- A query fails the same check, or has the renamed formula. -/
theorem Query.formula_rename
    (h : Formula.ofText text' = (Formula.ofText text).map (Formula.rename ρ)) :
    formula ⟨text', tol, m⟩ = (formula ⟨text, tol, m⟩).map (Formula.rename ρ) := by
  have htol : hasTolerance ⟨text', tol, m⟩ = hasTolerance ⟨text, tol, m⟩ := rfl
  have hi : hasIterations ⟨text', tol, m⟩ = hasIterations ⟨text, tol, m⟩ := rfl
  unfold formula
  rw [htol, hi, h]
  cases hasTolerance ⟨text, tol, m⟩ with
  | false => rfl
  | true =>
    cases hasIterations ⟨text, tol, m⟩ with
    | false => rfl
    | true => cases Formula.ofText text <;> rfl

namespace Service

theorem minimum_rename (f : Formula) (p : Progress) :
    minimum (f.rename ρ) p = (minimum f p).rename ρ := by
  show Minimum.mk (List.zipWith Coordinate.mk (f.unknowns.names.map ρ) p.point) p.value =
    ⟨(List.zipWith Coordinate.mk f.unknowns.names p.point).map (Coordinate.rename ρ), p.value⟩
  rw [List.zipWith_map_left, List.map_zipWith]
  rfl

/-- Where the descent ends, only a success has names in it. -/
theorem conclude_rename (c : Cancellation) (f : Formula) (p : Progress) :
    (conclude ⟨text', tol, m⟩ c (f.rename ρ) p).1 =
      (conclude ⟨text, tol, m⟩ c f p).1.map (Minimum.rename ρ) := by
  by_cases hspread : p.spread ≤ tol
  · rw [conclude_of_spread_le (q := ⟨text', tol, m⟩) hspread,
      conclude_of_spread_le (q := ⟨text, tol, m⟩) hspread, minimum_rename]
    rfl
  · cases hend : c.atEnd p with
    | true =>
      rw [conclude_of_atEnd (q := ⟨text', tol, m⟩) hspread hend,
        conclude_of_atEnd (q := ⟨text, tol, m⟩) hspread hend]
      rfl
    | false =>
      rw [conclude_of_not_atEnd (q := ⟨text', tol, m⟩) hspread hend,
        conclude_of_not_atEnd (q := ⟨text, tol, m⟩) hspread hend]
      rfl

/-- **The descent is the same** in every step: it starts at the same point, has the same objective
and stops by the same criterion. -/
theorem descend_rename (hf : Formula.ofTokens tokens = .ok f)
    (hρ : Set.InjOn ρ {x | .var x ∈ tokens}) (s : Service) (c : Cancellation) :
    (s.descend ⟨text', tol, m⟩ c (f.rename ρ)).1 =
      (s.descend ⟨text, tol, m⟩ c f).1.map (Minimum.rename ρ) := by
  have hdescent : s.descent (f.rename ρ) = s.descent f := by
    unfold descent
    rw [Formula.dim_rename]
  have hstops : stops ⟨text', tol, m⟩ c = stops ⟨text, tol, m⟩ c := rfl
  simp only [descend, EStateM.run, Formula.ofFormula_rename hf hρ, hdescent, hstops]
  cases Descent.run (.ofFormula f) (stops ⟨text, tol, m⟩ c) m.toInt.toNat (s.descent f) with
  | error why d => rfl
  | ok _ d => exact conclude_rename c f d.progress

/-- **Names do not matter.** Let a second text have the tokens of the first, except that other names
are given to the variables, different ones to different variables. Both texts are formulas then, with
the same program up to names and the variables in the same order, or both have the same defect. Any
service gives both the same answer, whatever the tolerance, the number of iterations and the
cancellation: the same refusal, or a minimum with the same value and the same coordinates in the same
order, each with the new name. -/
theorem minimizeUnlessCancelled_rename (ht : scan text = .ok tokens)
    (ht' : scan text' = .ok (tokens.map (Token.rename ρ)))
    (hρ : Set.InjOn ρ {x | .var x ∈ tokens}) :
    Formula.ofText text' = (Formula.ofText text).map (Formula.rename ρ) ∧
    ∀ (s : Service) (tol : Float) (m : Int64) (c : Cancellation),
      s.minimizeUnlessCancelled ⟨text', tol, m⟩ c =
        (s.minimizeUnlessCancelled ⟨text, tol, m⟩ c).map (Minimum.rename ρ) := by
  have htext : Formula.ofText text' = (Formula.ofText text).map (Formula.rename ρ) :=
    Formula.ofText_rename ht ht' hρ
  refine ⟨htext, fun s tol m c => ?_⟩
  unfold minimizeUnlessCancelled answer
  rw [Query.formula_rename htext]
  cases hq : Query.formula ⟨text, tol, m⟩ with
  | error refusal => cases refusal <;> rfl
  | ok f =>
    obtain ⟨-, -, hf⟩ := Query.formula_eq_ok_iff.mp hq
    exact descend_rename ((Formula.ofText_of_scan ht).symm.trans hf) hρ s c

/-- The difference of `x1` and `x2` the other way round is the same query: with the names exchanged
the coordinates keep their places. -/
theorem minimizeUnlessCancelled_rename_swap :
    scan "x1-x2" = .ok [.var "x1", .operator .sub, .var "x2"] ∧
      minimizeUnlessCancelled {} ⟨"x2-x1", 1, 1000⟩ (.duringMove 9) =
        (minimizeUnlessCancelled {} ⟨"x1-x2", 1, 1000⟩ (.duringMove 9)).map
          (Minimum.rename (Equiv.swap "x1" "x2")) := by
  have ht : scan "x1-x2" = .ok [.var "x1", .operator .sub, .var "x2"] := rfl
  have ht' : scan "x2-x1" = .ok (List.map (Token.rename (Equiv.swap "x1" "x2"))
      [.var "x1", .operator .sub, .var "x2"]) := rfl
  have hρ : Set.InjOn (Equiv.swap "x1" "x2")
      {x | .var x ∈ [Token.var "x1", .operator .sub, .var "x2"]} :=
    (Equiv.swap "x1" "x2").injective.injOn
  exact ⟨ht, (minimizeUnlessCancelled_rename ht ht' hρ).2 {} 1 1000 (.duringMove 9)⟩

end Service

end Downhill
