import Downhill.Proofs.Formula.Respelling
import Downhill.Proofs.Service.Outcome

/-!
# Queries in other words

What a query comes to depends on its text only through the formula. The text itself is for the events
and for what is wrong with it.

What is proved: texts whose formulas are equal can stand for each other. Their formulas have the same
value wherever there is one and fail alike where there is none, and queries that differ in the text
only have the same outcome (`beq_iff_program_and_interchangeable`). Blanks, letters in the other case,
other numerals and parentheses that are not needed make no difference.
-/

namespace Downhill

namespace Service

variable {a b : String}

/-- Texts of one formula, or with one defect, have the same outcome. -/
theorem minimizeUnlessCancelled_congr (h : Formula.ofText a = Formula.ofText b) (s : Service)
    (tol : Float) (m : Int64) (c : Cancellation) :
    s.minimizeUnlessCancelled ⟨a, tol, m⟩ c = s.minimizeUnlessCancelled ⟨b, tol, m⟩ c := by
  have hformula : Query.formula ⟨a, tol, m⟩ = Query.formula ⟨b, tol, m⟩ := by
    unfold Query.formula
    rw [h]
    rfl
  unfold minimizeUnlessCancelled answer
  rw [hformula]
  cases Query.formula ⟨b, tol, m⟩ with
  | error refusal => cases refusal <;> rfl
  | ok f =>
    have hstops : stops ⟨a, tol, m⟩ c = stops ⟨b, tol, m⟩ c := rfl
    simp only [descend, hstops]
    cases (Descent.run (.ofFormula f) (stops ⟨b, tol, m⟩ c) m.toInt.toNat).run (s.descent f) with
    | error why d => rfl
    | ok _ d => rfl

end Service

open Formula in
/-- **Equal formulas can stand for each other.** Two formulas of texts are equal exactly when their
programs are equal as lists, entry by entry or by value, and then their variables are the same in the
same order; it is when the tokens of the texts have the same tree. Equal formulas have the same value
or fail in the same way, whatever the values of the variables, describe objectives that answer every
call alike, and have the same outcome for any service, tolerance, number of iterations and
cancellation. So has any other spelling of a text. -/
theorem beq_iff_program_and_interchangeable {a b : String} {f g : Formula}
    (ha : ofText a = .ok f) (hb : ofText b = .ok g) :
    ((f == g) = true ↔ (f.program == g.program) = true) ∧
    ((f == g) = true ↔ f.program = g.program) ∧
    (f.program = g.program → f.unknowns = g.unknowns) ∧
    (∀ ts us t u, scan a = .ok ts → scan b = .ok us → Parse .sum ts t → Parse .sum us u →
      ((f == g) = true ↔ t = u)) ∧
    ((f == g) = true →
      (∀ bindings, f.value bindings = g.value bindings) ∧
      (∀ call p, (Objective.ofFormula f).apply call p = (Objective.ofFormula g).apply call p) ∧
      ∀ (s : Service) (tol : Float) (m : Int64) (c : Cancellation),
        s.minimizeUnlessCancelled ⟨a, tol, m⟩ c = s.minimizeUnlessCancelled ⟨b, tol, m⟩ c) ∧
    ∀ a', Respelled a a' → ofText a' = .ok f ∧
      ∀ (s : Service) (tol : Float) (m : Int64) (c : Cancellation),
        s.minimizeUnlessCancelled ⟨a', tol, m⟩ c = s.minimizeUnlessCancelled ⟨a, tol, m⟩ c := by
  have hprogram : f.program = g.program ↔ f = g :=
    ⟨eq_of_program_eq ha hb, congrArg Formula.program⟩
  refine ⟨?_, ?_, fun h => congrArg Formula.unknowns (hprogram.mp h), ?_, ?_, ?_⟩
  · rw [beq_iff ha hb, program_beq_iff ha hb, hprogram]
  · rw [beq_iff ha hb, hprogram]
  · intro ts us t u hs hs' ht hu
    rw [beq_iff ha hb]
    exact eq_iff_tree_eq ha hb hs hs' ht hu
  · intro h
    obtain rfl := (beq_iff ha hb).mp h
    refine ⟨fun _ => rfl, fun _ _ => rfl, fun s tol m c => ?_⟩
    exact s.minimizeUnlessCancelled_congr (ha.trans hb.symm) tol m c
  · intro a' h
    refine ⟨h.ofText_eq ▸ ha, fun s tol m c => ?_⟩
    exact s.minimizeUnlessCancelled_congr h.ofText_eq.symm tol m c

/-- With a product in parentheses, a numeral with a point and a capital letter it is the same query. -/
theorem beq_iff_program_and_interchangeable_product :
    ∃ f g, Formula.ofText "x1 + 2*x2" = .ok f ∧ Formula.ofText "X1+(2.0*x2)" = .ok g ∧
      (f == g) = true ∧
      Service.minimizeUnlessCancelled {} ⟨"x1 + 2*x2", 1, 1000⟩ (.duringMove 9) =
        Service.minimizeUnlessCancelled {} ⟨"X1+(2.0*x2)", 1, 1000⟩ (.duringMove 9) := by
  let sum (y : Float) : Formula :=
    ⟨[.var "x1", .number y, .var "x2", .operator .mul, .operator .add], ⟨["x1", "x2"]⟩⟩
  have ha : Formula.ofText "x1 + 2*x2" = .ok (sum (.ofScientific 2 true 0)) := rfl
  have hb : Formula.ofText "X1+(2.0*x2)" = .ok (sum (.ofScientific 20 true 1)) := rfl
  have hnumber : Float.ofScientific 2 true 0 = Float.ofScientific 20 true 1 := by decide +kernel
  have h := beq_iff_program_and_interchangeable ha hb
  have hbeq : (sum (.ofScientific 2 true 0) == sum (.ofScientific 20 true 1)) = true :=
    h.2.1.mpr (by rw [hnumber])
  exact ⟨_, _, ha, hb, hbeq, (h.2.2.2.2.1 hbeq).2.2 {} 1 1000 (.duringMove 9)⟩

end Downhill
