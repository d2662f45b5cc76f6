import Downhill.Formula.Value

/-!
# Formulas as trees

A formula means a tree: operators over numbers and variables. This module lists a tree in
post-order and computes it by recursion, the left subtree first, and compares both with the stack
of `Polish.run`.

What is proved: the stack computes a listing to the value of its tree if all variables of the tree
are bound (`value_listing_of_value`), and otherwise stops at the leftmost variable that is not
(`value_listing_of_unbound`), whatever else is on the stack and whatever follows. A listing belongs
to one tree only (`listing_injective`).
-/

namespace Downhill

/-- A tree of operators over numbers and variables. -/
inductive Tree where
  /-- A number. -/
  | number (value : Float)
  /-- A variable. -/
  | var (name : String)
  /-- An operator between two trees, its first operand on the left. -/
  | node (op : Operator) (left right : Tree)

namespace Tree

/-- The tokens of a tree in post-order. -/
def listing : Tree → List Token
  | number value => [.number value]
  | var name => [.var name]
  | node op l r => l.listing ++ r.listing ++ [.operator op]

/-- The variables of a tree from left to right, each as often as it occurs. -/
def names : Tree → List String
  | number _ => []
  | var name => [name]
  | node _ l r => l.names ++ r.names

/-- The value of a tree, if all its variables have one. -/
def value (bindings : Bindings) : Tree → Option Float
  | number value => some value
  | var name => bindings name
  | node op l r => do
    let a ← l.value bindings
    let b ← r.value bindings
    return op.apply a b

variable {bindings : Bindings}

theorem value_node_eq_some {op : Operator} {l r : Tree} {v : Float} :
    (node op l r).value bindings = some v ↔
      ∃ a b, l.value bindings = some a ∧ r.value bindings = some b ∧ op.apply a b = v := by
  simp [value, Option.bind_eq_some_iff]

/-- A tree has a value when all its variables have. -/
theorem exists_value (t : Tree) (h : ∀ x ∈ t.names, bindings x ≠ none) :
    ∃ v, t.value bindings = some v := by
  induction t with
  | number v => exact ⟨v, rfl⟩
  | var x => exact Option.ne_none_iff_exists'.mp (h x List.mem_cons_self)
  | node op l r ihl ihr =>
    obtain ⟨a, ha⟩ := ihl fun x hx => h x (List.mem_append_left _ hx)
    obtain ⟨b, hb⟩ := ihr fun x hx => h x (List.mem_append_right _ hx)
    exact ⟨op.apply a b, value_node_eq_some.mpr ⟨a, b, ha, hb, rfl⟩⟩

/-- And only then. -/
theorem bound_of_value {t : Tree} {v : Float} (h : t.value bindings = some v) :
    ∀ x ∈ t.names, bindings x ≠ none := by
  induction t generalizing v with
  | number => simp [names]
  | var y =>
    intro x hx
    obtain rfl : x = y := by simpa [names] using hx
    simp only [value] at h
    simp [h]
  | node op l r ihl ihr =>
    obtain ⟨a, b, ha, hb, -⟩ := value_node_eq_some.mp h
    intro x hx
    rcases List.mem_append.mp hx with hx | hx
    · exact ihl ha x hx
    · exact ihr hb x hx

/-- The value depends on the values of the variables in the tree alone. -/
theorem value_congr {b₁ b₂ : Bindings} {t : Tree} (h : ∀ x ∈ t.names, b₁ x = b₂ x) :
    t.value b₁ = t.value b₂ := by
  induction t with
  | number v => rfl
  | var x => exact h x List.mem_cons_self
  | node op l r ihl ihr =>
    have hl := ihl fun x hx => h x (List.mem_append_left _ hx)
    have hr := ihr fun x hx => h x (List.mem_append_right _ hx)
    rw [value, value, hl, hr]

/-! ### Listings on the stack -/

open Polish

/-- The listing of a tree pushes its value, on any stack and whatever follows. -/
theorem run_listing_append {t : Tree} {v : Float} (h : t.value bindings = some v)
    (rest : List Token) (stack : List Float) :
    run bindings (t.listing ++ rest) stack = run bindings rest (v :: stack) := by
  induction t generalizing v rest stack with
  | number w =>
    obtain rfl : w = v := Option.some.inj h
    rfl
  | var x =>
    simp only [value] at h
    simp only [listing, List.singleton_append, run, push, h]
    rfl
  | node op l r ihl ihr =>
    obtain ⟨a, b, ha, hb, rfl⟩ := value_node_eq_some.mp h
    simp only [listing, List.append_assoc]
    rw [ihl ha, ihr hb]
    rfl

/-- A listing with an unbound variable stops at the leftmost of them. -/
theorem run_listing_append_of_unbound {t : Tree} {before after : List String} {x : String}
    (hn : t.names = before ++ x :: after) (hx : bindings x = none)
    (hb : ∀ y ∈ before, bindings y ≠ none) (rest : List Token) (stack : List Float) :
    run bindings (t.listing ++ rest) stack = .error (.unbound x) := by
  induction t generalizing before after rest stack with
  | number => simp [names] at hn
  | var y =>
    simp only [names, List.singleton_eq_append_iff, List.cons.injEq, List.cons_ne_nil,
      and_false, or_false] at hn
    obtain ⟨-, rfl, -⟩ := hn
    simp only [listing, List.singleton_append, run, push, hx]
    rfl
  | node op l r ihl ihr =>
    simp only [listing, List.append_assoc]
    -- the variable stands in the left tree, or the left tree has a value and it stands in the right
    rcases List.append_eq_append_iff.mp hn with ⟨mid, rfl, hr⟩ | ⟨mid, hl, hr⟩
    · obtain ⟨a, ha⟩ := l.exists_value fun y hy => hb y (List.mem_append_left _ hy)
      rw [run_listing_append ha]
      exact ihr hr (fun y hy => hb y (List.mem_append_right _ hy)) _ _
    · cases mid with
      | nil =>
        rw [List.append_nil] at hl
        obtain ⟨a, ha⟩ := l.exists_value (hl ▸ hb)
        rw [run_listing_append ha]
        have hr' : r.names = [] ++ x :: after := by simpa using hr.symm
        exact ihr hr' (by simp) _ _
      | cons y mid =>
        obtain ⟨rfl, -⟩ : x = y ∧ after = mid ++ r.names := by simpa using hr
        exact ihl hl hb _ _

/-- **A listing is computed to the value of its tree.** -/
theorem value_listing_of_value {t : Tree} {v : Float} (h : t.value bindings = some v) :
    Polish.value bindings t.listing = .ok v := by
  have hrun := run_listing_append h [] []
  rw [List.append_nil] at hrun
  rw [Polish.value, hrun]
  rfl

/-- **A listing has no value when a variable has none**, and the leftmost one is named. -/
theorem value_listing_of_unbound {t : Tree} {before after : List String} {x : String}
    (hn : t.names = before ++ x :: after) (hx : bindings x = none)
    (hb : ∀ y ∈ before, bindings y ≠ none) :
    Polish.value bindings t.listing = .error (.unbound x) := by
  have hrun := run_listing_append_of_unbound hn hx hb [] []
  rw [List.append_nil] at hrun
  rw [Polish.value, hrun]
  rfl

/-- A list in which not every name is bound has a leftmost one that is not. -/
theorem exists_first_unbound {xs : List String} (h : ¬ ∀ x ∈ xs, bindings x ≠ none) :
    ∃ before x after, xs = before ++ x :: after ∧ bindings x = none ∧
      ∀ y ∈ before, bindings y ≠ none := by
  induction xs with
  | nil => simp at h
  | cons x xs ih =>
    by_cases hx : bindings x = none
    · exact ⟨[], x, xs, rfl, hx, by simp⟩
    · obtain ⟨before, y, after, rfl, hy, hb⟩ := ih fun hxs => h (by simpa [hx] using hxs)
      exact ⟨x :: before, y, after, rfl, hy, by simpa [hx] using hb⟩

/-- The value that the stack computes is that of the tree. -/
theorem value_of_value_listing {t : Tree} {v : Float}
    (h : Polish.value bindings t.listing = .ok v) : t.value bindings = some v := by
  by_cases hall : ∀ x ∈ t.names, bindings x ≠ none
  · obtain ⟨w, hw⟩ := t.exists_value hall
    rw [value_listing_of_value hw] at h
    rw [hw, Except.ok.inj h]
  · obtain ⟨before, x, after, hn, hx, hb⟩ := exists_first_unbound hall
    rw [value_listing_of_unbound hn hx hb] at h
    cases h

/-- A listing never runs into an empty stack, and never leaves more than one value. -/
theorem value_listing_ne_malformed (t : Tree) (depth : Nat) :
    Polish.value bindings t.listing ≠ .error (.malformed depth) := by
  by_cases h : ∀ x ∈ t.names, bindings x ≠ none
  · obtain ⟨v, hv⟩ := t.exists_value h
    simp [value_listing_of_value hv]
  · obtain ⟨before, x, after, hn, hx, hb⟩ := exists_first_unbound h
    simp [value_listing_of_unbound hn hx hb]

/-! ### One tree for a listing -/

/-- Read from its end, a token list shows the last tree that is listed there, and what stands
before it. -/
theorem append_listing_inj {t u : Tree} {xs ys : List Token}
    (h : xs ++ t.listing = ys ++ u.listing) : xs = ys ∧ t = u := by
  induction t generalizing u xs ys with
  | number v => cases u <;> simp_all [listing, ← List.append_assoc]
  | var x => cases u <;> simp_all [listing, ← List.append_assoc]
  | node op l r ihl ihr =>
    cases u with
    | number => simp [listing, ← List.append_assoc] at h
    | var => simp [listing, ← List.append_assoc] at h
    | node op' l' r' =>
      simp only [listing, ← List.append_assoc] at h
      obtain ⟨hlr, hop⟩ := List.append_inj' h rfl
      obtain rfl : op = op' := by simpa using hop
      obtain ⟨hl, rfl⟩ := ihr hlr
      obtain ⟨rfl, rfl⟩ := ihl hl
      exact ⟨rfl, rfl⟩

/-- **A listing belongs to one tree only.** -/
theorem listing_injective {t u : Tree} (h : t.listing = u.listing) : t = u := by
  have h' : [] ++ t.listing = [] ++ u.listing := h
  exact (append_listing_inj h').2

end Tree

end Downhill
