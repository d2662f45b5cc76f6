import Downhill.Proofs.Formula.Acceptance

/-!
# What a formula means

The reverse Polish order is made with a stack of operators, and computed with a stack of values.
This module proves that the two together compute the tree that the layered grammar gives to the
tokens.

An operator waits behind operators that bind more loosely, up to the innermost open parenthesis.
So a piece of the text that is a row of some layer finds nothing waiting that it would release
(`Precedes`), and the token behind it releases all of it (`Follows`). Between the two, reordering
puts out the listing of its tree, and what was waiting waits on (`reorder_parse`).

What is proved: the tree of a token list is unique, the program of a formula is its listing, and
the value of a formula is the value of the tree (`ofText_lists_and_computes_parse`).
-/

namespace Downhill

namespace Polish

/-- What may be waiting when a row of the layer is read: the latest operator binds more loosely. -/
inductive Precedes (layer : Layer) : List Pending → Prop where
  /-- Nothing is waiting. -/
  | nil : Precedes layer []
  /-- The row stands right behind an open parenthesis. -/
  | paren {waiting : List Pending} : Precedes layer (.paren :: waiting)
  /-- The row is the second operand of an operator of a looser layer. -/
  | operator {op : Operator} {waiting : List Pending} :
      op.precedence < layer.rank → Precedes layer (.operator op :: waiting)

/-- What may stand behind a row of the layer: nothing that binds more tightly. -/
inductive Follows (layer : Layer) : List Token → Prop where
  /-- Nothing follows. -/
  | nil : Follows layer []
  /-- The row ends with the group it stands in. -/
  | rightParen {tokens : List Token} : Follows layer (.rightParen :: tokens)
  /-- The row is the first operand of an operator of the layer or a looser one. -/
  | operator {op : Operator} {tokens : List Token} :
      op.precedence ≤ layer.rank → Follows layer (.operator op :: tokens)

theorem Precedes.next {layer : Layer} {waiting : List Pending} (h : Precedes layer waiting) :
    Precedes layer.next waiting := by
  cases h with
  | nil => exact .nil
  | paren => exact .paren
  | operator hop => exact .operator (hop.trans_le layer.rank_le_rank_next)

theorem Follows.next {layer : Layer} {tokens : List Token} (h : Follows layer tokens) :
    Follows layer.next tokens := by
  cases h with
  | nil => exact .nil
  | rightParen => exact .rightParen
  | operator hop => exact .operator (hop.trans layer.rank_le_rank_next)

/-- An operator of a layer releases nothing of what may precede the layer. -/
theorem reorder_operator_of_precedes {layer : Layer} {waiting : List Pending} {op : Operator}
    (h : Precedes layer waiting) (hop : op.precedence = layer.rank) (tokens : List Token) :
    reorder waiting (.operator op :: tokens) = reorder (.operator op :: waiting) tokens := by
  have released : release op waiting = ([], waiting) := by
    cases h with
    | nil => rfl
    | paren => rfl
    | @operator top waiting htop =>
      have waits : top.goesBefore op = false := by
        rw [← Bool.not_eq_true, Operator.goesBefore_iff]
        omega
      simp [release, waits]
  rw [reorder_operator, released]
  cases reorder (.operator op :: waiting) tokens <;> rfl

/-- What follows a row of a layer releases an operator of that layer, and the operator is put out
before all the rest. -/
theorem reorder_of_follows {layer : Layer} {tokens : List Token} {op : Operator}
    (h : Follows layer tokens) (hop : op.precedence = layer.rank) (waiting : List Pending) :
    reorder (.operator op :: waiting) tokens =
      (reorder waiting tokens).map (.operator op :: ·) := by
  cases h with
  | nil =>
    rw [reorder_nil, reorder_nil, finish]
    cases finish waiting <;> rfl
  | @rightParen tokens =>
    cases hc : close waiting with
    | error defect =>
      have hc' : close (.operator op :: waiting) = .error defect := by rw [close, hc]; rfl
      rw [reorder_rightParen_of_error _ _ hc, reorder_rightParen_of_error _ _ hc', Except.map]
    | ok found =>
      obtain ⟨out, rest⟩ := found
      have hc' : close (.operator op :: waiting) = .ok (op :: out, rest) := by rw [close, hc]; rfl
      rw [reorder_rightParen_of_close _ _ hc, reorder_rightParen_of_close _ _ hc']
      cases reorder rest tokens <;> rfl
  | @operator incoming tokens hin =>
    have goes : op.goesBefore incoming = true := Operator.goesBefore_iff.mpr (by omega)
    have released : release incoming (.operator op :: waiting) =
        (op :: (release incoming waiting).1, (release incoming waiting).2) := by
      simp [release, goes]
    rw [reorder_operator, reorder_operator, released]
    cases reorder (.operator incoming :: (release incoming waiting).2) tokens <;> rfl

/-- **A piece of the text that has a tree is put out as the listing of the tree**, wherever it
stands, and leaves what is waiting as it was. -/
theorem reorder_parse {layer : Layer} {ts : List Token} {t : Tree} (h : Parse layer ts t)
    {waiting : List Pending} {rest : List Token} (hp : Precedes layer waiting)
    (hf : Follows layer rest) :
    reorder waiting (ts ++ rest) = (reorder waiting rest).map (t.listing ++ ·) := by
  induction h generalizing waiting rest with
  | @row layer op ts us l r hmem _ _ ihl ihr =>
    have hop : op.precedence = layer.rank := Layer.mem_operators_iff.mp hmem
    have hnext : layer.next.rank = op.precedence + 1 := Layer.rank_next_of_mem hmem
    calc reorder waiting (ts ++ .operator op :: us ++ rest)
        = (reorder waiting (.operator op :: (us ++ rest))).map (l.listing ++ ·) := by
          rw [List.append_assoc, List.cons_append, ihl hp (.operator hop.le)]
      _ = ((reorder (.operator op :: waiting) rest).map (r.listing ++ ·)).map (l.listing ++ ·) := by
          rw [reorder_operator_of_precedes hp hop, ihr (.operator (by omega)) hf.next]
      _ = (reorder waiting rest).map ((Tree.node op l r).listing ++ ·) := by
          rw [reorder_of_follows hf hop]
          cases reorder waiting rest <;> simp [Except.map, Tree.listing]
  | pass _ ih => exact ih hp.next hf.next
  | number v => exact reorder_number waiting rest v
  | var x => exact reorder_var waiting rest x
  | @group ts t _ ih =>
    have closing : reorder (.paren :: waiting) (.rightParen :: rest) = reorder waiting rest := by
      rw [reorder_rightParen_of_close (.paren :: waiting) rest rfl]
      cases reorder waiting rest <;> rfl
    rw [List.cons_append, List.append_assoc, reorder_leftParen, List.singleton_append,
      ih .paren .rightParen, closing]

/-- The reverse Polish order of a token list that has a tree is the listing of the tree. -/
theorem ofTokens_parse {ts : List Token} {t : Tree} (h : Parse .sum ts t) :
    ofTokens ts = .ok t.listing := by
  have hr := reorder_parse h .nil .nil
  rw [List.append_nil] at hr
  rw [ofTokens, hr]
  simp [reorder, finish, bind, Except.bind, pure, Except.pure, Except.map]

end Polish

/-- **A token list has one tree at most.** -/
theorem Parse.unique {ts : List Token} {t u : Tree} (ht : Parse .sum ts t) (hu : Parse .sum ts u) :
    t = u := by
  have h : Except.ok t.listing = Except.ok u.listing :=
    (Polish.ofTokens_parse ht).symm.trans (Polish.ofTokens_parse hu)
  exact Tree.listing_injective (Except.ok.inj h)

namespace Formula

/-- What a formula is: the listing of the tree of its tokens, and their variables. -/
theorem exists_parse_of_ofTokens {tokens : List Token} {f : Formula}
    (h : ofTokens tokens = .ok f) :
    ∃ t, Parse .sum tokens t ∧ f = ⟨t.listing, .ofTokens tokens⟩ := by
  obtain ⟨t, ht⟩ := (exists_ofTokens_iff.mp ⟨f, h⟩).exists_parse
  obtain ⟨program, hp, -, rfl⟩ := ofTokens_eq_ok_iff.mp h
  rw [Polish.ofTokens_parse ht] at hp
  cases hp
  exact ⟨t, ht, rfl⟩

/-- **A formula is computed as it reads.** The tokens of its text have one tree in the layered
grammar, and its program is the listing of that tree. Its value is the value of the tree, the left
subtree being the first operand, if every variable of the tree is bound. Otherwise the leftmost
variable of the text that is not bound is named. The stack never runs empty. -/
theorem ofText_lists_and_computes_parse {text : String} {f : Formula}
    (h : ofText text = .ok f) (bindings : Bindings) :
    ∃ tokens t, scan text = .ok tokens ∧ Parse .sum tokens t ∧
      (∀ u, Parse .sum tokens u → u = t) ∧
      f.program = t.listing ∧
      ((∀ x ∈ t.names, bindings x ≠ none) →
        ∃ v, t.value bindings = some v ∧ f.value bindings = .ok v) ∧
      (∀ before x after, tokens = before ++ .var x :: after → bindings x = none →
        (∀ y, .var y ∈ before → bindings y ≠ none) → f.value bindings = .error (.unbound x)) ∧
      ∀ depth, f.value bindings ≠ .error (.malformed depth) := by
  obtain ⟨tokens, hs, hf⟩ := exists_scan_of_ofText h
  obtain ⟨t, ht, rfl⟩ := exists_parse_of_ofTokens hf
  refine ⟨tokens, t, hs, ht, fun u hu => hu.unique ht, rfl, ?_, ?_,
    t.value_listing_ne_malformed⟩
  · intro hbound
    obtain ⟨v, hv⟩ := t.exists_value hbound
    exact ⟨v, hv, Tree.value_listing_of_value hv⟩
  · rintro before x after rfl hx hb
    have hn : t.names = before.filterMap Token.name? ++ x :: after.filterMap Token.name? := by
      rw [ht.names_eq]
      simp [Token.name?]
    exact Tree.value_listing_of_unbound hn hx fun y hy => hb y (Token.mem_filterMap_name?.mp hy)

/-- In `x1-x2*(x3-X1)`, with a value for `x1` alone, the variable that is missing is `x2`. -/
theorem ofText_names_leftmost_unbound :
    ∃ f, ofText "x1-x2*(x3-X1)" = .ok f ∧
      f.value (.ofList [("x1", 1)]) = .error (.unbound "x2") := by
  let tokens : List Token := [.var "x1", .operator .sub, .var "x2", .operator .mul, .leftParen,
    .var "x3", .operator .sub, .var "x1", .rightParen]
  have hscan : scan "x1-x2*(x3-X1)" = .ok tokens := rfl
  have hf : ofText "x1-x2*(x3-X1)" = .ok ⟨[.var "x1", .var "x2", .var "x3", .var "x1",
    .operator .sub, .operator .mul, .operator .sub], ⟨["x1", "x2", "x3"]⟩⟩ := rfl
  obtain ⟨found, t, hs, -, -, -, -, hunbound, -⟩ :=
    ofText_lists_and_computes_parse hf (.ofList [("x1", 1)])
  obtain rfl : tokens = found := Except.ok.inj (hscan.symm.trans hs)
  refine ⟨_, hf, hunbound (tokens.take 2) "x2" (tokens.drop 3) rfl rfl ?_⟩
  simp [tokens, Bindings.ofList]

end Formula

end Downhill
