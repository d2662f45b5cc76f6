import Downhill.Formula.Defect
import Downhill.Formula.Token

/-!
# Operands and operators in their places

In a formula operands and operators take turns, from an operand to an operand, inside every pair of
parentheses as outside. The check goes through the tokens once and looks back no further than to
the token before; it relies on the parentheses pairing up.
-/

namespace Downhill

/-- What stands before a token. -/
inductive Before
  /-- Nothing: the token is the first. -/
  | start
  /-- The end of an operand: a number, a variable or a closing parenthesis. -/
  | operand
  /-- An operator. -/
  | operator (op : Operator)
  /-- An opening parenthesis. -/
  | leftParen
  deriving DecidableEq, Repr

namespace Before

/-- What stands before the next token once this one has been found in its place. -/
def after : Before → Token → Except Defect Before
  | operand, .number _ | operand, .var _ | operand, .leftParen => .error .missingOperator
  | _, .number _ | _, .var _ => .ok operand
  | _, .leftParen => .ok leftParen
  | operand, .operator op => .ok (operator op)
  | _, .operator op => .error (.missingOperand op)
  | operand, .rightParen => .ok operand
  | operator op, .rightParen => .error (.missingOperand op)
  | start, .rightParen | leftParen, .rightParen => .error .empty

/-! An operand or an opening parenthesis stands anywhere but behind an operand, an operator or a
closing parenthesis stands there only. -/

section After

variable {before next : Before}

attribute [local simp] after

theorem after_number_eq_ok {value : Float} :
    before.after (.number value) = .ok next ↔ before ≠ operand ∧ next = operand := by
  cases before <;> simp [eq_comm]

theorem after_var_eq_ok {name : String} :
    before.after (.var name) = .ok next ↔ before ≠ operand ∧ next = operand := by
  cases before <;> simp [eq_comm]

theorem after_leftParen_eq_ok :
    before.after .leftParen = .ok next ↔ before ≠ operand ∧ next = leftParen := by
  cases before <;> simp [eq_comm]

theorem after_operator_eq_ok {op : Operator} :
    before.after (.operator op) = .ok next ↔ before = operand ∧ next = operator op := by
  cases before <;> simp [eq_comm]

theorem after_rightParen_eq_ok :
    before.after .rightParen = .ok next ↔ before = operand ∧ next = operand := by
  cases before <;> simp [eq_comm]

/-! What stands elsewhere says what is missing before it, or what a closing parenthesis is missing. -/

variable {defect : Defect}

theorem after_number_eq_error {value : Float} :
    before.after (.number value) = .error defect ↔
      before = operand ∧ defect = .missingOperator := by
  cases before <;> simp [eq_comm]

theorem after_var_eq_error {name : String} :
    before.after (.var name) = .error defect ↔ before = operand ∧ defect = .missingOperator := by
  cases before <;> simp [eq_comm]

theorem after_leftParen_eq_error :
    before.after .leftParen = .error defect ↔ before = operand ∧ defect = .missingOperator := by
  cases before <;> simp [eq_comm]

theorem after_operator_eq_error {op : Operator} :
    before.after (.operator op) = .error defect ↔
      before ≠ operand ∧ defect = .missingOperand op := by
  cases before <;> simp [eq_comm]

theorem after_rightParen_eq_error :
    before.after .rightParen = .error defect ↔
      (∃ op, before = operator op ∧ defect = .missingOperand op) ∨
        (before = start ∨ before = leftParen) ∧ defect = .empty := by
  cases before <;> simp [eq_comm]

end After

/-- A formula may end here. -/
def isEnd : Before → Except Defect Unit
  | operand => .ok ()
  | operator op => .error (.missingOperand op)
  | start | leftParen => .error .empty

/-- A formula ends behind an operand. -/
theorem isEnd_eq_ok {before : Before} : before.isEnd = .ok () ↔ before = operand := by
  cases before <;> simp [isEnd]

theorem isEnd_eq_error {before : Before} {defect : Defect} :
    before.isEnd = .error defect ↔
      (∃ op, before = operator op ∧ defect = .missingOperand op) ∨
        (before = start ∨ before = leftParen) ∧ defect = .empty := by
  cases before <;> simp [isEnd, eq_comm]

end Before

/-- The first token out of its place, if any, from what stands before the tokens. -/
def checkTurnsFrom (before : Before) : List Token → Except Defect Unit
  | [] => before.isEnd
  | token :: tokens => do
    let next ← before.after token
    checkTurnsFrom next tokens

theorem checkTurnsFrom_of_after {before next : Before} {token : Token}
    (h : before.after token = .ok next) (tokens : List Token) :
    checkTurnsFrom before (token :: tokens) = checkTurnsFrom next tokens := by
  rw [checkTurnsFrom, h]
  rfl

theorem checkTurnsFrom_cons_eq_ok {before : Before} {token : Token} {tokens : List Token} :
    checkTurnsFrom before (token :: tokens) = .ok () ↔
      ∃ next, before.after token = .ok next ∧ checkTurnsFrom next tokens = .ok () := by
  rw [checkTurnsFrom]
  cases before.after token <;> simp [bind, Except.bind]

/-- Operands and operators take turns. -/
def checkTurns (tokens : List Token) : Except Defect Unit :=
  checkTurnsFrom .start tokens

end Downhill
