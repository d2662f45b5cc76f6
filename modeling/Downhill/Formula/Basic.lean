import Downhill.Formula.Turns
import Downhill.Formula.Polish
import Downhill.Formula.Scan
import Downhill.Formula.Value

/-!
# Formulas

A formula is a text that has been found right, kept as its tokens in reverse Polish order together
with its variables. Of several defects of a text the one reported is the first in this order: an
unrecognized run, a parenthesis without a partner, a token out of its place.
-/

namespace Downhill

/-- A text ready to be evaluated. -/
structure Formula where
  /-- The tokens in reverse Polish order. -/
  program : List Token
  /-- The variables, in the order of their first appearance in the text. -/
  unknowns : Variables
  deriving Repr

namespace Formula

/-- Formulas are compared token by token, numbers by value. -/
instance : BEq Formula where
  beq f g := f.program == g.program && f.unknowns == g.unknowns

/-- The formula of a token list. -/
def ofTokens (tokens : List Token) : Except Defect Formula := do
  let program ← Polish.ofTokens tokens
  checkTurns tokens
  return ⟨program, .ofTokens tokens⟩

/-- The formula of a text. -/
def ofText (text : String) : Except Defect Formula := do
  let tokens ← scan text
  ofTokens tokens

/-- A token list is made a formula when both checks find nothing. -/
theorem ofTokens_eq_ok_iff {tokens : List Token} {f : Formula} :
    ofTokens tokens = .ok f ↔
      ∃ program, Polish.ofTokens tokens = .ok program ∧ checkTurns tokens = .ok () ∧
        f = ⟨program, .ofTokens tokens⟩ := by
  rw [ofTokens]
  cases Polish.ofTokens tokens <;> cases checkTurns tokens <;>
    simp [bind, Except.bind, pure, Except.pure, eq_comm]

theorem ofText_of_scan {text : String} {tokens : List Token} (h : scan text = .ok tokens) :
    ofText text = ofTokens tokens := by
  rw [ofText, h]
  rfl

theorem ofText_of_scan_error {text : String} {defect : Defect} (h : scan text = .error defect) :
    ofText text = .error defect := by
  rw [ofText, h]
  rfl

/-- The formula of a text is that of its tokens. -/
theorem exists_scan_of_ofText {text : String} {f : Formula} (h : ofText text = .ok f) :
    ∃ tokens, scan text = .ok tokens ∧ ofTokens tokens = .ok f := by
  cases hs : scan text with
  | error defect => simp [ofText_of_scan_error hs] at h
  | ok tokens => exact ⟨tokens, rfl, ofText_of_scan hs ▸ h⟩

/-- The number of variables. -/
def dim (f : Formula) : Nat := f.unknowns.size

/-- The formula as it is shown: its tokens in reverse Polish order, with single spaces between. -/
def text (f : Formula) : String :=
  " ".intercalate (f.program.map Token.text)

/-- The value of the formula where its variables have the values given. -/
def value (f : Formula) (bindings : Bindings) : Except Stuck Float :=
  Polish.value bindings f.program

end Formula

end Downhill
