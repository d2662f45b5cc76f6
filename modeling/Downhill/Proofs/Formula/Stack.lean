import Downhill.Proofs.Formula.Pass
import Downhill.Proofs.Formula.Tree

/-!
# Which token lists have a value

`Polish.value` takes any token list, and most are no listing of a tree. What is on the stack tells
what has been read: a row of trees one behind the other, each listed in post-order, and the stack
holds their values, the last one on top (`Holds`). Any operand that has a value can follow, and an
operator can if there are two trees at least for it to join. A token that cannot follow offends
(`Offends`), and how many values there are then is the number of operands less the number of
operators that have been read.

What is proved: a token list has a value exactly when it is the listing of a tree, which is the only
one, and has the value of that tree; and the reason why another list has none is given by the first
token that offends, or if none does by how many values are left (`Polish.value_of_any_list`).
-/

namespace Downhill

/-- The number of numbers and variables. -/
def operands (ts : List Token) : Nat := ts.countP Token.isOperand

/-- The number of operators. -/
def operators (ts : List Token) : Nat := ts.countP (· matches .operator _)

@[simp] theorem operands_append (ts us : List Token) :
    operands (ts ++ us) = operands ts + operands us :=
  List.countP_append

@[simp] theorem operators_append (ts us : List Token) :
    operators (ts ++ us) = operators ts + operators us :=
  List.countP_append

/-- A tree has one operand more than operators. -/
theorem Tree.operands_listing (t : Tree) : operands t.listing = operators t.listing + 1 := by
  induction t with
  | number v => rfl
  | var x => rfl
  | node op l r ihl ihr =>
    have hop : operands [.operator op] = 0 ∧ operators [.operator op] = 1 := ⟨rfl, rfl⟩
    simp only [Tree.listing, operands_append, operators_append, ihl, ihr, hop]
    omega

namespace Polish

variable {bindings : Bindings} {ts : List Token} {stack : List Float}

/-- The tokens list trees one behind the other, and the stack holds the values of these trees, the
last on top. -/
inductive Holds (bindings : Bindings) : List Token → List Float → Prop where
  /-- Nothing has been read. -/
  | nil : Holds bindings [] []
  /-- One more tree has been read. -/
  | tree {ts : List Token} {stack : List Float} {t : Tree} {v : Float} :
      Holds bindings ts stack → t.value bindings = some v →
      Holds bindings (ts ++ t.listing) (v :: stack)

/-- There are as many values as operands less the operators. -/
theorem Holds.operands_eq (h : Holds bindings ts stack) :
    operands ts = operators ts + stack.length := by
  induction h with
  | nil => rfl
  | @tree ts stack t v _ _ ih =>
    have := t.operands_listing
    simp only [operands_append, operators_append, List.length_cons]
    omega

theorem Holds.exists_tree {v : Float} (h : Holds bindings ts [v]) :
    ∃ t : Tree, ts = t.listing ∧ t.value bindings = some v := by
  cases h with
  | @tree _ _ t _ h hv =>
    cases h
    exact ⟨t, rfl, hv⟩

/-- An operand is a tree, and an operator makes one of the last two. -/
theorem Holds.push {token : Token} {next : List Float} (h : Holds bindings ts stack)
    (hpush : push bindings token stack = .ok next) : Holds bindings (ts ++ [token]) next := by
  cases token with
  | number v =>
    obtain rfl : v :: stack = next := Except.ok.inj hpush
    exact h.tree (t := .number v) rfl
  | var x =>
    cases hx : bindings x with
    | none => simp [Polish.push, hx] at hpush
    | some v =>
      obtain rfl : v :: stack = next := by simpa [Polish.push, hx] using hpush
      exact h.tree (t := .var x) hx
  | operator op =>
    cases h with
    | nil => cases hpush
    | @tree ts₁ stack₁ r b h hr =>
      cases h with
      | nil => cases hpush
      | @tree ts₂ rest l a h hl =>
        obtain rfl : op.apply a b :: rest = next := Except.ok.inj hpush
        have hv : (Tree.node op l r).value bindings = some (op.apply a b) :=
          Tree.value_node_eq_some.mpr ⟨a, b, hl, hr, rfl⟩
        simpa [Tree.listing] using h.tree hv
  | leftParen => cases hpush
  | rightParen => cases hpush

/-- The token cannot follow the others, for this reason. -/
inductive Offends (bindings : Bindings) (before : List Token) : Token → Stuck → Prop where
  /-- A variable has no value. -/
  | unbound {x : String} : bindings x = none → Offends bindings before (.var x) (.unbound x)
  /-- An operator has fewer than two values before it. -/
  | operator {op : Operator} {depth : Nat} :
      operands before = operators before + depth → depth < 2 →
      Offends bindings before (.operator op) (.malformed depth)
  /-- A parenthesis is neither an operand nor an operator. -/
  | paren {t : Token} {depth : Nat} :
      t.isParen = true → operands before = operators before + depth →
      Offends bindings before t (.malformed depth)

/-- None of the tokens offends. -/
def Inoffensive (bindings : Bindings) (ts : List Token) : Prop :=
  ∀ before t after why, ts = before ++ t :: after → ¬ Offends bindings before t why

/-- A token that cannot be pushed offends. -/
theorem Holds.push_eq_error_iff {token : Token} {why : Stuck} (h : Holds bindings ts stack) :
    Polish.push bindings token stack = .error why ↔ Offends bindings ts token why := by
  have hdepth := h.operands_eq
  constructor
  · intro hpush
    cases token with
    | number v => cases hpush
    | var x =>
      cases hx : bindings x with
      | none =>
        obtain rfl : Stuck.unbound x = why := by simpa [Polish.push, hx] using hpush
        exact .unbound hx
      | some v => simp [Polish.push, hx] at hpush
    | operator op =>
      rcases stack with _ | ⟨b, _ | ⟨a, rest⟩⟩
      · cases hpush
        exact .operator hdepth (by simp)
      · cases hpush
        exact .operator hdepth (by simp)
      · cases hpush
    | leftParen =>
      cases hpush
      exact .paren rfl hdepth
    | rightParen =>
      cases hpush
      exact .paren rfl hdepth
  · intro hoffends
    cases hoffends with
    | unbound hx => simp [Polish.push, hx]
    | @operator op depth hbefore hlt =>
      obtain rfl : depth = stack.length := by omega
      rcases stack with _ | ⟨b, _ | ⟨a, rest⟩⟩
      · rfl
      · rfl
      · rw [List.length_cons, List.length_cons] at hlt
        omega
    | @paren _ depth ht hbefore =>
      obtain rfl : depth = stack.length := by omega
      cases token <;> simp_all [Token.isParen, Polish.push]

/-! ### Runs -/

/-- Tokens are pushed one after the other. -/
theorem run_eq_foldlM (bindings : Bindings) (ts : List Token) (stack : List Float) :
    run bindings ts stack = ts.foldlM (fun stack token => push bindings token stack) stack := by
  induction ts generalizing stack with
  | nil => rfl
  | cons t ts ih => simp only [run, List.foldlM_cons, ih]

/-- **What has been read is on the stack.** -/
theorem holds_of_run (h : run bindings ts [] = .ok stack) : Holds bindings ts stack := by
  rw [run_eq_foldlM] at h
  exact foldlM_induction .nil (fun _ _ _ _ hmid hnext => hmid.push hnext) h

/-- A run stops at a token that offends, behind tokens that are gone through. -/
theorem run_eq_error_iff {why : Stuck} :
    run bindings ts [] = .error why ↔
      ∃ before t after stack, ts = before ++ t :: after ∧ run bindings before [] = .ok stack ∧
        Offends bindings before t why := by
  simp only [run_eq_foldlM, foldlM_eq_error_iff]
  constructor
  · rintro ⟨before, t, after, mid, hts, hmid, ht⟩
    have hholds : Holds bindings before mid := holds_of_run (by rwa [run_eq_foldlM])
    exact ⟨before, t, after, mid, hts, hmid, hholds.push_eq_error_iff.mp ht⟩
  · rintro ⟨before, t, after, mid, hts, hmid, ho⟩
    have hholds : Holds bindings before mid := holds_of_run (by rwa [run_eq_foldlM])
    exact ⟨before, t, after, mid, hts, hmid, hholds.push_eq_error_iff.mpr ho⟩

/-- **A run goes through when no token offends.** -/
theorem exists_run_iff : (∃ stack, run bindings ts [] = .ok stack) ↔ Inoffensive bindings ts := by
  constructor
  · rintro ⟨stack, hrun⟩ before t after why rfl ho
    obtain ⟨mid, hmid⟩ : ∃ mid, run bindings before [] = .ok mid := by
      simp only [run_eq_foldlM] at hrun ⊢
      exact exists_foldlM_of_append hrun
    cases hrun.symm.trans (run_eq_error_iff.mpr ⟨before, t, after, mid, rfl, hmid, ho⟩)
  · intro h
    cases hrun : run bindings ts [] with
    | ok stack => exact ⟨stack, rfl⟩
    | error why =>
      obtain ⟨before, t, after, -, hts, -, ho⟩ := run_eq_error_iff.mp hrun
      exact absurd ho (h before t after why hts)

/-! ### Values -/

theorem value_of_run_error {why : Stuck} (h : run bindings ts [] = .error why) :
    value bindings ts = .error why := by
  rw [value, h]
  rfl

theorem value_of_run_singleton {v : Float} (h : run bindings ts [] = .ok [v]) :
    value bindings ts = .ok v := by
  rw [value, h]
  rfl

theorem value_of_run_of_length_ne (h : run bindings ts [] = .ok stack) (hlen : stack.length ≠ 1) :
    value bindings ts = .error (.malformed stack.length) := by
  rw [value, h]
  rcases stack with _ | ⟨b, _ | ⟨a, rest⟩⟩
  · rfl
  · simp at hlen
  · rfl

/-- A list that has a value lists a tree. -/
theorem exists_tree_of_value {v : Float} (h : value bindings ts = .ok v) :
    ∃ t : Tree, ts = t.listing ∧ t.value bindings = some v := by
  cases hrun : run bindings ts [] with
  | error why => simp [value_of_run_error hrun] at h
  | ok stack =>
    by_cases hlen : stack.length = 1
    · obtain ⟨w, rfl⟩ := List.length_eq_one_iff.mp hlen
      obtain rfl : w = v := Except.ok.inj ((value_of_run_singleton hrun).symm.trans h)
      exact (holds_of_run hrun).exists_tree
    · simp [value_of_run_of_length_ne hrun hlen] at h

/-- A list has no value because of the first token that offends, or because another number of values
than one is left. -/
theorem value_eq_error_iff {why : Stuck} :
    value bindings ts = .error why ↔
      (∃ before t after, ts = before ++ t :: after ∧ Inoffensive bindings before ∧
        Offends bindings before t why) ∨
      Inoffensive bindings ts ∧
        ∃ depth, operands ts = operators ts + depth ∧ depth ≠ 1 ∧ why = .malformed depth := by
  constructor
  · intro h
    cases hrun : run bindings ts [] with
    | error first =>
      obtain rfl : first = why := Except.error.inj ((value_of_run_error hrun).symm.trans h)
      obtain ⟨before, t, after, mid, hts, hmid, ho⟩ := run_eq_error_iff.mp hrun
      exact .inl ⟨before, t, after, hts, exists_run_iff.mp ⟨mid, hmid⟩, ho⟩
    | ok stack =>
      have hlen : stack.length ≠ 1 := by
        intro hlen
        obtain ⟨v, rfl⟩ := List.length_eq_one_iff.mp hlen
        cases h.symm.trans (value_of_run_singleton hrun)
      have hwhy := Except.error.inj (h.symm.trans (value_of_run_of_length_ne hrun hlen))
      exact .inr ⟨exists_run_iff.mp ⟨stack, hrun⟩, stack.length,
        (holds_of_run hrun).operands_eq, hlen, hwhy⟩
  · rintro (⟨before, t, after, rfl, hbefore, ho⟩ | ⟨hts, depth, hdepth, hne, rfl⟩)
    · obtain ⟨mid, hmid⟩ := exists_run_iff.mpr hbefore
      exact value_of_run_error (run_eq_error_iff.mpr ⟨before, t, after, mid, rfl, hmid, ho⟩)
    · obtain ⟨stack, hrun⟩ := exists_run_iff.mpr hts
      have hlen := (holds_of_run hrun).operands_eq
      obtain rfl : stack.length = depth := by omega
      exact value_of_run_of_length_ne hrun hne

/-- **What the value of any token list is.** A list has a value exactly when it lists a tree whose
variables are all bound; the tree is then the only one, and the value is that of the tree. Otherwise
the first token that offends says why there is none: a variable that is not bound, an operator that
finds fewer than two values, a parenthesis. If no token offends there are left as many values as
operands less the operators, and not one. -/
theorem value_of_any_list (bindings : Bindings) (ts : List Token) :
    (∀ v, value bindings ts = .ok v ↔
      ∃ t : Tree, ts = t.listing ∧ (∀ u : Tree, ts = u.listing → u = t) ∧
        (∀ x ∈ t.names, bindings x ≠ none) ∧ t.value bindings = some v) ∧
      ∀ why, value bindings ts = .error why ↔
        (∃ before t after, ts = before ++ t :: after ∧ Inoffensive bindings before ∧
          Offends bindings before t why) ∨
        Inoffensive bindings ts ∧
          ∃ depth, operands ts = operators ts + depth ∧ depth ≠ 1 ∧ why = .malformed depth := by
  refine ⟨fun v => ⟨?_, ?_⟩, fun why => value_eq_error_iff⟩
  · intro h
    obtain ⟨t, rfl, hv⟩ := exists_tree_of_value h
    exact ⟨t, rfl, fun u hu => (Tree.listing_injective hu).symm, Tree.bound_of_value hv, hv⟩
  · rintro ⟨t, rfl, -, -, hv⟩
    exact Tree.value_listing_of_value hv

/-- Of `x1 x2 ( x3 +`, without a value for `x3`, the parenthesis is the first token that offends. It
finds two values. -/
theorem value_of_parenthesis :
    Offends (.ofList [("x1", 1), ("x2", 2)]) [.var "x1", .var "x2"] .leftParen (.malformed 2) ∧
      value (.ofList [("x1", 1), ("x2", 2)])
        [.var "x1", .var "x2", .leftParen, .var "x3", .operator .add] = .error (.malformed 2) := by
  have hoffends : Offends (.ofList [("x1", 1), ("x2", 2)]) [.var "x1", .var "x2"] .leftParen
      (.malformed 2) := .paren rfl rfl
  have hbefore : Inoffensive (.ofList [("x1", 1), ("x2", 2)]) [.var "x1", .var "x2"] :=
    exists_run_iff.mp ⟨[2, 1], rfl⟩
  exact ⟨hoffends, ((value_of_any_list _ _).2 _).mpr (.inl ⟨_, _, _, rfl, hbefore, hoffends⟩)⟩

end Polish

end Downhill
