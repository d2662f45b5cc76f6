import Downhill.Formula.Defect
import Downhill.Formula.Token

/-!
# Reverse Polish order

Tokens in the order in which a stack computes them: both operands, then their operator, and no
parentheses. Operands keep their order. An operator waits until both its operands are out, behind
the operators that bind more loosely and the parentheses that are still open.

The order is made for any token list whose parentheses pair up, also for one that is no formula;
`checkTurns` tells formulas from the rest.
-/

namespace Downhill

/-- What waits for the end of an operand: an operator, or an open parenthesis around it. -/
inductive Pending
  /-- An operator whose second operand is being read. -/
  | operator (op : Operator)
  /-- A parenthesis that is open. -/
  | paren
  deriving DecidableEq, Repr

namespace Polish

/-- What is waiting, the latest first, parted at an incoming operator: the operators to be computed
before it, and what goes on waiting. -/
def release (incoming : Operator) : List Pending → List Operator × List Pending
  | .operator top :: waiting =>
    if top.goesBefore incoming then
      let (out, rest) := release incoming waiting
      (top :: out, rest)
    else ([], .operator top :: waiting)
  | waiting => ([], waiting)

/-- Parting loses nothing. -/
theorem release_append (incoming : Operator) (waiting : List Pending) :
    (release incoming waiting).1.map .operator ++ (release incoming waiting).2 = waiting := by
  fun_induction release incoming waiting with
  | case1 top waiting _ out rest h ih =>
    rw [h] at ih
    simpa using ih
  | case2 => rfl
  | case3 => rfl

/-- The operators since the latest open parenthesis, and what waits outside it. -/
def close : List Pending → Except Defect (List Operator × List Pending)
  | [] => .error .unbalanced
  | .paren :: waiting => .ok ([], waiting)
  | .operator op :: waiting => do
    let (out, rest) ← close waiting
    return (op :: out, rest)

/-- A closing parenthesis takes what waits up to its partner. -/
theorem eq_append_of_close {waiting rest : List Pending} {out : List Operator}
    (h : close waiting = .ok (out, rest)) : waiting = out.map .operator ++ .paren :: rest := by
  induction waiting generalizing out with
  | nil => cases h
  | cons top waiting ih =>
    cases top with
    | paren =>
      cases h
      rfl
    | operator op =>
      cases hc : close waiting with
      | error e => simp [close, hc, bind, Except.bind] at h
      | ok found =>
        simp only [close, hc, bind, Except.bind, pure, Except.pure, Except.ok.injEq,
          Prod.mk.injEq] at h
        obtain ⟨rfl, rfl⟩ := h
        rw [ih hc]
        rfl

/-- The operators still waiting at the end of the tokens, where no parenthesis may be open. -/
def finish : List Pending → Except Defect (List Operator)
  | [] => .ok []
  | .paren :: _ => .error .unbalanced
  | .operator op :: waiting => do
    let out ← finish waiting
    return op :: out

/-- The reverse Polish order of the tokens that remain, after what is waiting. -/
def reorder : List Pending → List Token → Except Defect (List Token)
  | waiting, [] => do
    let out ← finish waiting
    return out.map .operator
  | waiting, .leftParen :: tokens => reorder (.paren :: waiting) tokens
  | waiting, .rightParen :: tokens => do
    let (out, rest) ← close waiting
    let more ← reorder rest tokens
    return out.map .operator ++ more
  | waiting, .operator op :: tokens => do
    let (out, rest) := release op waiting
    let more ← reorder (.operator op :: rest) tokens
    return out.map .operator ++ more
  | waiting, operand :: tokens => do
    let more ← reorder waiting tokens
    return operand :: more

/-! ### One token at a time -/

section Tokens

variable (waiting : List Pending) (tokens : List Token)

theorem reorder_nil :
    reorder waiting [] = (finish waiting).map fun out => out.map .operator := by
  rw [reorder]
  cases finish waiting <;> rfl

theorem reorder_leftParen :
    reorder waiting (.leftParen :: tokens) = reorder (.paren :: waiting) tokens := by
  rw [reorder]

theorem reorder_number (value : Float) :
    reorder waiting (.number value :: tokens) =
      (reorder waiting tokens).map (.number value :: ·) := by
  simp only [reorder]
  cases reorder waiting tokens <;> rfl

theorem reorder_var (name : String) :
    reorder waiting (.var name :: tokens) = (reorder waiting tokens).map (.var name :: ·) := by
  simp only [reorder]
  cases reorder waiting tokens <;> rfl

theorem reorder_operator (op : Operator) :
    reorder waiting (.operator op :: tokens) =
      (reorder (.operator op :: (release op waiting).2) tokens).map
        ((release op waiting).1.map .operator ++ ·) := by
  rw [reorder]
  obtain ⟨out, rest⟩ := release op waiting
  simp only [bind, Except.bind]
  cases reorder (.operator op :: rest) tokens <;> rfl

theorem reorder_rightParen_of_close {out : List Operator} {rest : List Pending}
    (h : close waiting = .ok (out, rest)) :
    reorder waiting (.rightParen :: tokens) =
      (reorder rest tokens).map (out.map .operator ++ ·) := by
  rw [reorder, h]
  simp only [bind, Except.bind]
  cases reorder rest tokens <;> rfl

theorem reorder_rightParen_of_error {defect : Defect} (h : close waiting = .error defect) :
    reorder waiting (.rightParen :: tokens) = .error defect := by
  rw [reorder, h]
  rfl

end Tokens

/-- The reverse Polish order of a token list. Its only defect is a parenthesis without a partner. -/
def ofTokens (tokens : List Token) : Except Defect (List Token) :=
  reorder [] tokens

end Polish

end Downhill
