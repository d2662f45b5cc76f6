import Downhill.Formula.Polish
import Mathlib.Data.List.Infix

/-!
# Parentheses that pair up

Parentheses pair up when no beginning of the tokens closes more of them than it opens and the whole
list closes as many as it opens (`Balanced`). Read from the left this is a matter of how many are
open (`Closes`), and that many are among what is waiting in `Polish.reorder`.

What is proved: tokens have a reverse Polish order exactly when their parentheses pair up, and
otherwise the defect is that they do not, whatever else is wrong with the tokens
(`ofTokens_of_balanced`, `ofTokens_of_not_balanced`).
-/

namespace Downhill

/-- The number of opening parentheses. -/
def opened (ts : List Token) : Nat := ts.countP (· matches .leftParen)

/-- The number of closing parentheses. -/
def closed (ts : List Token) : Nat := ts.countP (· matches .rightParen)

@[simp] theorem opened_nil : opened [] = 0 := rfl

@[simp] theorem closed_nil : closed [] = 0 := rfl

@[simp] theorem opened_leftParen (ts : List Token) : opened (.leftParen :: ts) = opened ts + 1 := by
  simp [opened]

@[simp] theorem closed_rightParen (ts : List Token) :
    closed (.rightParen :: ts) = closed ts + 1 := by
  simp [closed]

@[simp] theorem opened_cons {t : Token} (h : t ≠ .leftParen) (ts : List Token) :
    opened (t :: ts) = opened ts := by
  cases t <;> simp_all [opened]

@[simp] theorem closed_cons {t : Token} (h : t ≠ .rightParen) (ts : List Token) :
    closed (t :: ts) = closed ts := by
  cases t <;> simp_all [closed]

/-- The parentheses pair up. -/
structure Balanced (ts : List Token) : Prop where
  /-- No beginning closes more parentheses than it opens. -/
  closed_le : ∀ us, us <+: ts → closed us ≤ opened us
  /-- As many are closed as are opened. -/
  closed_eq : closed ts = opened ts

/-- The tokens close the given number of open parentheses, and those that they open themselves. -/
def Closes : Nat → List Token → Prop
  | n, [] => n = 0
  | n, .leftParen :: ts => Closes (n + 1) ts
  | 0, .rightParen :: _ => False
  | n + 1, .rightParen :: ts => Closes n ts
  | n, .number _ :: ts | n, .var _ :: ts | n, .operator _ :: ts => Closes n ts

instance decidableCloses : (n : Nat) → (ts : List Token) → Decidable (Closes n ts)
  | n, [] => inferInstanceAs (Decidable (n = 0))
  | n, .leftParen :: ts => decidableCloses (n + 1) ts
  | 0, .rightParen :: _ => inferInstanceAs (Decidable False)
  | n + 1, .rightParen :: ts => decidableCloses n ts
  | n, .number _ :: ts => decidableCloses n ts
  | n, .var _ :: ts => decidableCloses n ts
  | n, .operator _ :: ts => decidableCloses n ts

/-- What holds of every beginning of a list holds of the empty one and of those with the head. -/
theorem forall_prefix_cons {P : List Token → Prop} {t : Token} {ts : List Token} :
    (∀ us, us <+: t :: ts → P us) ↔ P [] ∧ ∀ us, us <+: ts → P (t :: us) := by
  constructor
  · intro h
    exact ⟨h [] List.nil_prefix, fun us hus => h (t :: us) (List.cons_prefix_cons.mpr ⟨rfl, hus⟩)⟩
  · rintro ⟨hnil, hcons⟩ us hus
    rcases List.prefix_cons_iff.mp hus with rfl | ⟨us', rfl, hus'⟩
    · exact hnil
    · exact hcons us' hus'

/-- Whether tokens close what is open, by counting. -/
theorem closes_iff {n : Nat} {ts : List Token} :
    Closes n ts ↔
      (∀ us, us <+: ts → closed us ≤ n + opened us) ∧ closed ts = n + opened ts := by
  induction ts generalizing n with
  | nil =>
    simp only [Closes, List.prefix_nil, forall_eq, closed_nil, opened_nil]
    omega
  | cons t ts ih =>
    rw [forall_prefix_cons]
    cases t with
    | leftParen =>
      rw [Closes, ih]
      simp [Nat.add_assoc, Nat.add_comm 1]
    | rightParen =>
      cases n with
      | zero =>
        simp only [Closes, false_iff]
        rintro ⟨⟨-, h⟩, -⟩
        simpa using h [] List.nil_prefix
      | succ n =>
        rw [Closes, ih]
        simp [Nat.add_right_comm n 1]
    | number v => simp [Closes, ih]
    | var x => simp [Closes, ih]
    | operator op => simp [Closes, ih]

/-- The parentheses pair up exactly when they close what is open and nothing is open before. -/
theorem balanced_iff_closes {ts : List Token} : Balanced ts ↔ Closes 0 ts := by
  simp only [closes_iff, Nat.zero_add]
  exact ⟨fun h => ⟨h.closed_le, h.closed_eq⟩, fun h => ⟨h.1, h.2⟩⟩

instance (ts : List Token) : Decidable (Balanced ts) :=
  decidable_of_iff _ balanced_iff_closes.symm

/-! ### Parentheses among what is waiting -/

namespace Polish

/-- The number of parentheses that are open. -/
def depth (waiting : List Pending) : Nat := waiting.count .paren

@[simp] theorem depth_nil : depth [] = 0 := rfl

@[simp] theorem depth_paren (waiting : List Pending) :
    depth (.paren :: waiting) = depth waiting + 1 := by
  simp [depth]

@[simp] theorem depth_operator (op : Operator) (waiting : List Pending) :
    depth (.operator op :: waiting) = depth waiting := by
  simp [depth]

@[simp] theorem depth_operators_append (ops : List Operator) (waiting : List Pending) :
    depth (ops.map .operator ++ waiting) = depth waiting := by
  induction ops with
  | nil => rfl
  | cons op ops ih => simpa using ih

theorem depth_release (op : Operator) (waiting : List Pending) :
    depth (release op waiting).2 = depth waiting := by
  conv_rhs => rw [← release_append op waiting]
  rw [depth_operators_append]

/-- A closing parenthesis finds a partner if one is open, and that one is then closed. -/
theorem exists_close {waiting : List Pending} {n : Nat} (h : depth waiting = n + 1) :
    ∃ out rest, close waiting = .ok (out, rest) ∧ depth rest = n := by
  induction waiting with
  | nil => simp at h
  | cons top waiting ih =>
    cases top with
    | paren => exact ⟨[], waiting, rfl, by simpa using h⟩
    | operator op =>
      obtain ⟨out, rest, hc, hr⟩ := ih (by simpa using h)
      exact ⟨op :: out, rest, by simp [close, hc, bind, Except.bind, pure, Except.pure], hr⟩

theorem close_of_depth_eq_zero {waiting : List Pending} (h : depth waiting = 0) :
    close waiting = .error .unbalanced := by
  induction waiting with
  | nil => rfl
  | cons top waiting ih =>
    cases top with
    | paren => simp at h
    | operator op => simp [close, ih (by simpa using h), bind, Except.bind]

/-- At the end no parenthesis may be open. -/
theorem exists_finish {waiting : List Pending} (h : depth waiting = 0) :
    ∃ out, finish waiting = .ok out := by
  induction waiting with
  | nil => exact ⟨[], rfl⟩
  | cons top waiting ih =>
    cases top with
    | paren => simp at h
    | operator op =>
      obtain ⟨out, ho⟩ := ih (by simpa using h)
      exact ⟨op :: out, by simp [finish, ho, bind, Except.bind, pure, Except.pure]⟩

theorem finish_of_depth_ne_zero {waiting : List Pending} (h : depth waiting ≠ 0) :
    finish waiting = .error .unbalanced := by
  induction waiting with
  | nil => simp at h
  | cons top waiting ih =>
    cases top with
    | paren => rfl
    | operator op => simp [finish, ih (by simpa using h), bind, Except.bind]

/-- Tokens that close what is open can be reordered. -/
theorem exists_reorder (waiting : List Pending) {ts : List Token}
    (h : Closes (depth waiting) ts) : ∃ out, reorder waiting ts = .ok out := by
  induction ts generalizing waiting with
  | nil =>
    obtain ⟨out, ho⟩ := exists_finish h
    exact ⟨_, by rw [reorder_nil, ho, Except.map]⟩
  | cons t ts ih =>
    cases t with
    | number v =>
      obtain ⟨out, ho⟩ := ih waiting h
      exact ⟨_, by rw [reorder_number, ho, Except.map]⟩
    | var x =>
      obtain ⟨out, ho⟩ := ih waiting h
      exact ⟨_, by rw [reorder_var, ho, Except.map]⟩
    | operator op =>
      obtain ⟨out, ho⟩ := ih (.operator op :: (release op waiting).2)
        (by rw [depth_operator, depth_release]; exact h)
      exact ⟨_, by rw [reorder_operator, ho, Except.map]⟩
    | leftParen =>
      obtain ⟨out, ho⟩ := ih (.paren :: waiting) (by rw [depth_paren]; exact h)
      exact ⟨out, by rw [reorder_leftParen, ho]⟩
    | rightParen =>
      cases hd : depth waiting with
      | zero =>
        rw [hd] at h
        exact h.elim
      | succ n =>
        rw [hd] at h
        obtain ⟨ops, rest, hc, hr⟩ := exists_close hd
        obtain ⟨out, ho⟩ := ih rest (by rw [hr]; exact h)
        exact ⟨_, by rw [reorder_rightParen_of_close _ _ hc, ho, Except.map]⟩

/-- Tokens that do not close what is open fail for that reason. -/
theorem reorder_of_not_closes (waiting : List Pending) {ts : List Token}
    (h : ¬ Closes (depth waiting) ts) : reorder waiting ts = .error .unbalanced := by
  induction ts generalizing waiting with
  | nil => rw [reorder_nil, finish_of_depth_ne_zero h, Except.map]
  | cons t ts ih =>
    cases t with
    | number v => rw [reorder_number, ih waiting h, Except.map]
    | var x => rw [reorder_var, ih waiting h, Except.map]
    | operator op =>
      rw [reorder_operator, ih, Except.map]
      rw [depth_operator, depth_release]
      exact h
    | leftParen =>
      rw [reorder_leftParen, ih]
      rw [depth_paren]
      exact h
    | rightParen =>
      cases hd : depth waiting with
      | zero => exact reorder_rightParen_of_error _ _ (close_of_depth_eq_zero hd)
      | succ n =>
        rw [hd] at h
        obtain ⟨ops, rest, hc, hr⟩ := exists_close hd
        rw [reorder_rightParen_of_close _ _ hc, ih, Except.map]
        rw [hr]
        exact h

/-- **Tokens whose parentheses pair up have a reverse Polish order.** -/
theorem ofTokens_of_balanced {ts : List Token} (h : Balanced ts) :
    ∃ out, ofTokens ts = .ok out :=
  exists_reorder [] (balanced_iff_closes.mp h)

/-- **Other tokens have none**, and no other defect is reported. -/
theorem ofTokens_of_not_balanced {ts : List Token} (h : ¬ Balanced ts) :
    ofTokens ts = .error .unbalanced :=
  reorder_of_not_closes [] fun hc => h (balanced_iff_closes.mpr hc)

end Polish

end Downhill
