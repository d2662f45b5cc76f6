import Downhill.Proofs.Formula.Tree

/-!
# The grammar of formulas

Two grammars of token lists. The flat one says which lists are formulas at all,

    E → A | E op E        A → number | variable | ( E )

and the layered one says which tree a formula means, every row of operators grouped from the left
and powers bound most tightly:

    E → E (+|-) M | M     M → M (*|/) P | P     P → P ^ A | A     A → number | variable | ( E )

`Sentence` is the language of the flat grammar. `Parse` relates a token list, at a layer of the
second grammar, to its tree, in which parentheses no longer occur. Both grammars have the same
sentences (`sentence_iff_exists_parse`): what the flat grammar leaves open is only how a row groups.
-/

namespace Downhill

/-- The token lists that are formulas: operands and operators in turns, in every group as outside. -/
inductive Sentence : List Token → Prop where
  /-- A number. -/
  | number (value : Float) : Sentence [.number value]
  /-- A variable. -/
  | var (name : String) : Sentence [.var name]
  /-- A sentence in parentheses. -/
  | group {ts : List Token} : Sentence ts → Sentence (.leftParen :: (ts ++ [.rightParen]))
  /-- Two sentences joined by an operator. -/
  | row {ts us : List Token} (op : Operator) :
      Sentence ts → Sentence us → Sentence (ts ++ .operator op :: us)

/-- The layers of the grammar, the loosest operators first. -/
inductive Layer where
  /-- Rows of sums and differences. -/
  | sum
  /-- Rows of products and quotients. -/
  | product
  /-- Rows of powers. -/
  | power
  /-- Numbers, variables and groups. -/
  | atom
  deriving DecidableEq

namespace Layer

/-- The operators of the rows of a layer. -/
def operators : Layer → List Operator
  | sum => [.add, .sub]
  | product => [.mul, .div]
  | power => [.pow]
  | atom => []

/-- The layer that binds next more tightly. -/
def next : Layer → Layer
  | sum => product
  | product => power
  | power | atom => atom

/-- The precedence of the operators of a layer, and one more than the greatest for atoms. -/
def rank : Layer → Nat
  | sum => 1
  | product => 2
  | power => 3
  | atom => 4

theorem mem_operators_iff {layer : Layer} {op : Operator} :
    op ∈ layer.operators ↔ op.precedence = layer.rank := by
  cases layer <;> cases op <;> decide

theorem rank_next_of_mem {layer : Layer} {op : Operator} (h : op ∈ layer.operators) :
    layer.next.rank = op.precedence + 1 := by
  cases layer <;> cases op <;> revert h <;> decide

theorem rank_le_rank_next (layer : Layer) : layer.rank ≤ layer.next.rank := by
  cases layer <;> decide

/-- An operator that binds no more loosely than a layer is one of its operators, or binds no more
loosely than the next layer. -/
theorem mem_operators_or_rank_next_le {layer : Layer} {op : Operator}
    (h : layer.rank ≤ op.precedence) : op ∈ layer.operators ∨ layer.next.rank ≤ op.precedence := by
  cases layer <;> cases op <;> revert h <;> decide

theorem sum_rank_le (op : Operator) : sum.rank ≤ op.precedence := by
  cases op <;> decide

theorem precedence_lt_rank_atom (op : Operator) : op.precedence < atom.rank := by
  cases op <;> decide

end Layer

/-- The token list has the tree at the layer. -/
inductive Parse : Layer → List Token → Tree → Prop where
  /-- A row of the layer, its last operator at the root. -/
  | row {layer : Layer} {op : Operator} {ts us : List Token} {l r : Tree} :
      op ∈ layer.operators → Parse layer ts l → Parse layer.next us r →
      Parse layer (ts ++ .operator op :: us) (.node op l r)
  /-- A row of one element. -/
  | pass {layer : Layer} {ts : List Token} {t : Tree} : Parse layer.next ts t → Parse layer ts t
  /-- A number. -/
  | number (value : Float) : Parse .atom [.number value] (.number value)
  /-- A variable. -/
  | var (name : String) : Parse .atom [.var name] (.var name)
  /-- A group has the tree of the formula in it. -/
  | group {ts : List Token} {t : Tree} :
      Parse .sum ts t → Parse .atom (.leftParen :: (ts ++ [.rightParen])) t

namespace Parse

/-- What has a tree is a sentence. -/
theorem sentence {layer : Layer} {ts : List Token} {t : Tree} (h : Parse layer ts t) :
    Sentence ts := by
  induction h with
  | row _ _ _ ihl ihr => exact .row _ ihl ihr
  | pass _ ih => exact ih
  | number value => exact .number value
  | var name => exact .var name
  | group _ ih => exact .group ih

/-- The variables of the tree are those of the tokens, in the same order. -/
theorem names_eq {layer : Layer} {ts : List Token} {t : Tree} (h : Parse layer ts t) :
    t.names = ts.filterMap Token.name? := by
  induction h with
  | row _ _ _ ihl ihr => simp [Tree.names, ihl, ihr, List.filterMap_cons, Token.name?]
  | pass _ ih => exact ih
  | number value => rfl
  | var name => rfl
  | group _ ih => simp [ih, List.filterMap_cons, Token.name?]

/-- An atom is a row of every layer. -/
theorem of_atom {ts : List Token} {t : Tree} (h : Parse .atom ts t) (layer : Layer) :
    Parse layer ts t := by
  have power : Parse .power ts t := pass h
  have product : Parse .product ts t := pass power
  cases layer with
  | sum => exact pass product
  | product => exact product
  | power => exact power
  | atom => exact h

/-- A row may go on, at its end, with an operator that binds no more loosely than its layer. The
operator goes down the right side of the tree to where it is tight enough. -/
theorem snoc {layer : Layer} {ts us : List Token} {t a : Tree} {op : Operator}
    (ht : Parse layer ts t) (ha : Parse .atom us a) (hop : layer.rank ≤ op.precedence) :
    ∃ u, Parse layer (ts ++ .operator op :: us) u := by
  induction ht with
  | @row layer op₁ ts₁ us₁ l r hmem hl hr _ ihr =>
    rcases Layer.mem_operators_or_rank_next_le hop with heq | hlt
    · exact ⟨_, row heq (row hmem hl hr) (ha.of_atom _)⟩
    · obtain ⟨u, hu⟩ := ihr hlt
      refine ⟨.node op₁ l u, ?_⟩
      rw [List.append_assoc]
      exact row hmem hl hu
  | pass h ih =>
    rcases Layer.mem_operators_or_rank_next_le hop with heq | hlt
    · exact ⟨_, row heq (pass h) (ha.of_atom _)⟩
    · obtain ⟨u, hu⟩ := ih hlt
      exact ⟨u, pass hu⟩
  | number | var | group => exact absurd (Layer.precedence_lt_rank_atom op) (Nat.not_lt.mpr hop)

/-- Two formulas joined by an operator have a tree: the second is added to the first atom by
atom. -/
theorem join {layer : Layer} {us : List Token} {u : Tree} (hu : Parse layer us u)
    {ts : List Token} {t : Tree} (ht : Parse .sum ts t) (op : Operator) :
    ∃ v, Parse .sum (ts ++ .operator op :: us) v := by
  induction hu generalizing ts t op with
  | @row _ op₁ us₁ _ _ _ _ _ _ ihl ihr =>
    obtain ⟨v, hv⟩ := ihl ht op
    obtain ⟨w, hw⟩ := ihr hv op₁
    exact ⟨w, by simpa using hw⟩
  | pass _ ih => exact ih ht op
  | number value => exact snoc ht (.number value) (Layer.sum_rank_le op)
  | var name => exact snoc ht (.var name) (Layer.sum_rank_le op)
  | group h => exact snoc ht (.group h) (Layer.sum_rank_le op)

end Parse

/-- Every sentence has a tree. -/
theorem Sentence.exists_parse {ts : List Token} (h : Sentence ts) : ∃ t, Parse .sum ts t := by
  induction h with
  | number value => exact ⟨_, (Parse.number value).of_atom _⟩
  | var name => exact ⟨_, (Parse.var name).of_atom _⟩
  | group _ ih =>
    obtain ⟨t, ht⟩ := ih
    exact ⟨t, (Parse.group ht).of_atom _⟩
  | row op _ _ ihl ihr =>
    obtain ⟨l, hl⟩ := ihl
    obtain ⟨r, hr⟩ := ihr
    exact hr.join hl op

/-- **The two grammars have the same sentences.** -/
theorem sentence_iff_exists_parse {ts : List Token} : Sentence ts ↔ ∃ t, Parse .sum ts t :=
  ⟨Sentence.exists_parse, fun ⟨_, h⟩ => h.sentence⟩

end Downhill
