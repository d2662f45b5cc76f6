import Downhill.Formula.Operator

/-!
# Defects of formulas

Why a text is no formula.
-/

namespace Downhill

/-- What is wrong with the text of a formula. -/
inductive Defect
  /-- A run of characters between separators is neither a number nor a variable. -/
  | unrecognized (run : String)
  /-- Parentheses do not pair up. -/
  | unbalanced
  /-- There is nothing to compute, in the whole text or between two parentheses. -/
  | empty
  /-- An operator lacks one of its operands. -/
  | missingOperand (op : Operator)
  /-- Two operands stand side by side. -/
  | missingOperator
  deriving DecidableEq, Repr

/-- The defect in words. -/
def Defect.message : Defect → String
  | unrecognized run => "unrecognized token `" ++ run ++ "`"
  | unbalanced => "unbalanced parentheses"
  | empty => "empty expression"
  | missingOperand op => "missing operand for `" ++ op.symbol.toString ++ "`"
  | missingOperator => "missing operator between operands"

end Downhill
