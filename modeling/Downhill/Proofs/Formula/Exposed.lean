import Downhill.Proofs.Float.Finite
import Downhill.Proofs.Formula.Grammar

/-!
# Variables whose values show

A formula may have a finite value where a variable has none: in a divisor an infinity comes to zero,
and under a power even what is no number may come to one. What shows of a variable depends on where it
occurs: on the operators above an occurrence, and on which side of them it is (`Tree.Occurs`).

What is proved: if a tree has a value that is a number, so has every variable that occurs in it under
no power (`Tree.Bare.isNaN`). If the value is finite, so is that of every variable which occurs in no
divisor either (`Tree.Exposed.isFinite`). In a formula without powers all variables are bare, and
without division all of these are exposed (`Tree.occurs_of_mem_names`).
-/

namespace Downhill

namespace Tree

/-- The variable has an occurrence in the tree that is in the first operand of operators of the first
list only, and in the second operand of operators of the second one. -/
inductive Occurs (firsts seconds : List Operator) : Tree → String → Prop
  /-- The tree is the variable. -/
  | var (name : String) : Occurs firsts seconds (.var name) name
  /-- The occurrence is in the first operand. -/
  | left {op : Operator} {l r : Tree} {x : String} (hop : op ∈ firsts)
      (h : Occurs firsts seconds l x) : Occurs firsts seconds (.node op l r) x
  /-- The occurrence is in the second operand. -/
  | right {op : Operator} {l r : Tree} {x : String} (hop : op ∈ seconds)
      (h : Occurs firsts seconds r x) : Occurs firsts seconds (.node op l r) x

/-- The variable has an occurrence that is under no power. -/
def Bare : Tree → String → Prop := Occurs [.add, .sub, .mul, .div] [.add, .sub, .mul, .div]

/-- The variable has an occurrence that is under no power and in no divisor. -/
def Exposed : Tree → String → Prop := Occurs [.add, .sub, .mul, .div] [.add, .sub, .mul]

/-- The operators of a tree. -/
def operators : Tree → List Operator
  | number _ | var _ => []
  | node op l r => op :: (l.operators ++ r.operators)

variable {t : Tree} {x : String} {firsts seconds : List Operator} {bindings : Bindings} {v : Float}

/-- What the operators ask of their operands is so of a variable if it is so of the value. -/
theorem Occurs.spread {P : Float → Prop} (hx : t.Occurs firsts seconds x)
    (hleft : ∀ op ∈ firsts, ∀ a b, P (op.apply a b) → P a)
    (hright : ∀ op ∈ seconds, ∀ a b, P (op.apply a b) → P b)
    (h : t.value bindings = some v) (hv : P v) : ∃ w, bindings x = some w ∧ P w := by
  induction hx generalizing v with
  | var name => exact ⟨v, h, hv⟩
  | left hop _ ih =>
    obtain ⟨a, b, ha, -, rfl⟩ := value_node_eq_some.mp h
    exact ih ha (hleft _ hop a b hv)
  | right hop _ ih =>
    obtain ⟨a, b, -, hb, rfl⟩ := value_node_eq_some.mp h
    exact ih hb (hright _ hop a b hv)

/-- Where all operators of a tree are in both lists, every variable occurs so. -/
theorem occurs_of_mem_names (h : ∀ op ∈ t.operators, op ∈ firsts ∧ op ∈ seconds)
    (hx : x ∈ t.names) : t.Occurs firsts seconds x := by
  induction t with
  | number => cases hx
  | var name =>
    obtain rfl : x = name := List.mem_singleton.mp hx
    exact .var x
  | node op l r ihl ihr =>
    rw [operators, List.forall_mem_cons] at h
    obtain ⟨⟨hfirst, hsecond⟩, hrest⟩ := h
    rcases List.mem_append.mp hx with hx | hx
    · exact .left hfirst (ihl (fun op hop => hrest op (List.mem_append_left _ hop)) hx)
    · exact .right hsecond (ihr (fun op hop => hrest op (List.mem_append_right _ hop)) hx)

/-! ### Numbers -/

theorem isNaN_of_apply {op : Operator} (hop : op ∈ [.add, .sub, .mul, .div]) {a b : Float}
    (h : (op.apply a b).isNaN = false) : a.isNaN = false ∧ b.isNaN = false := by
  cases op with
  | add => exact isNaN_of_add h
  | sub => exact isNaN_of_sub h
  | mul => exact isNaN_of_mul h
  | div => exact isNaN_of_div h
  | pow => exact absurd hop (by decide)

/-- **If the value of a tree is a number, so is that of every variable under no power.** -/
theorem Bare.isNaN (hx : t.Bare x) (h : t.value bindings = some v) (hv : v.isNaN = false) :
    ∃ w, bindings x = some w ∧ w.isNaN = false :=
  hx.spread (fun _ hop _ _ h => (isNaN_of_apply hop h).1)
    (fun _ hop _ _ h => (isNaN_of_apply hop h).2) h hv

/-- Without powers every variable is bare. -/
theorem bare_of_mem_names (hpow : .pow ∉ t.operators) (hx : x ∈ t.names) : t.Bare x := by
  refine occurs_of_mem_names (fun op hop => ?_) hx
  cases op with
  | pow => exact absurd hop hpow
  | _ => decide

/-! ### Finite values -/

theorem isFinite_left {op : Operator} (hop : op ∈ [.add, .sub, .mul, .div]) {a b : Float}
    (h : (op.apply a b).isFinite = true) : a.isFinite = true := by
  cases op with
  | add => exact (isFinite_of_add h).1
  | sub => exact (isFinite_of_sub h).1
  | mul => exact (isFinite_of_mul h).1
  | div => exact isFinite_of_div h
  | pow => exact absurd hop (by decide)

theorem isFinite_right {op : Operator} (hop : op ∈ [.add, .sub, .mul]) {a b : Float}
    (h : (op.apply a b).isFinite = true) : b.isFinite = true := by
  cases op with
  | add => exact (isFinite_of_add h).2
  | sub => exact (isFinite_of_sub h).2
  | mul => exact (isFinite_of_mul h).2
  | div | pow => exact absurd hop (by decide)

/-- **If the value of a tree is finite, so is that of every variable exposed in it.** -/
theorem Exposed.isFinite (hx : t.Exposed x) (h : t.value bindings = some v)
    (hv : v.isFinite = true) : ∃ w, bindings x = some w ∧ w.isFinite = true :=
  hx.spread (fun _ hop _ _ h => isFinite_left hop h) (fun _ hop _ _ h => isFinite_right hop h) h hv

/-- Without division and powers every variable is exposed. -/
theorem exposed_of_mem_names (hpow : .pow ∉ t.operators) (hdiv : .div ∉ t.operators)
    (hx : x ∈ t.names) : t.Exposed x := by
  refine occurs_of_mem_names (fun op hop => ?_) hx
  cases op with
  | pow => exact absurd hop hpow
  | div => exact absurd hop hdiv
  | _ => decide

end Tree

/-- The operators of the tree of a token list are in the list. -/
theorem Parse.mem_of_mem_operators {layer : Layer} {ts : List Token} {t : Tree}
    (h : Parse layer ts t) {op : Operator} (hop : op ∈ t.operators) : .operator op ∈ ts := by
  induction h with
  | row _ _ _ ihl ihr =>
    rcases List.mem_cons.mp hop with rfl | hop
    · simp
    rcases List.mem_append.mp hop with hop | hop
    · exact List.mem_append_left _ (ihl hop)
    · exact List.mem_append_right _ (List.mem_cons_of_mem _ (ihr hop))
  | pass _ ih => exact ih hop
  | number => cases hop
  | var => cases hop
  | group _ ih => exact List.mem_cons_of_mem _ (List.mem_append_left _ (ih hop))

end Downhill
