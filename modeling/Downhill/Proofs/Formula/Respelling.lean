import Downhill.Proofs.Formula.Equality

/-!
# Other spellings of a formula

A formula can be written in many ways: with blanks, in capital letters, with other numerals for its
numbers, and with parentheses around what is read as one operand anyway. Parentheses are around such a
piece if nothing beside them binds more tightly than the operators in it (`Opens`, `Follows`); of a
row of one layer that is its first operand, not its second one.

What is proved: other spellings of a text are the same formula, or have the same defect
(`Respelled.ofText_eq`).
-/

namespace Downhill

open Lexer (Spells)

/-! ### Parentheses that are not needed -/

/-- What may stand before a row of the layer without parentheses: nothing that binds as tightly. -/
inductive Opens (layer : Layer) : List Token → Prop
  /-- Nothing stands there. -/
  | nil : Opens layer []
  /-- The row begins the group it stands in. -/
  | leftParen {before : List Token} : Opens layer (before ++ [.leftParen])
  /-- The row is the second operand of an operator of a looser layer. -/
  | operator {before : List Token} {op : Operator} :
      op.precedence < layer.rank → Opens layer (before ++ [.operator op])

/-- A row of a layer is a formula by itself. -/
theorem Parse.of_layer {layer : Layer} {ts : List Token} {t : Tree} (h : Parse layer ts t) :
    Parse .sum ts t := by
  cases layer with
  | sum => exact h
  | product => exact .pass h
  | power => exact .pass (.pass h)
  | atom => exact h.of_atom .sum

namespace Polish

theorem Precedes.atom {layer : Layer} {waiting : List Pending} (h : Precedes layer waiting) :
    Precedes .atom waiting := by
  cases h with
  | nil => exact .nil
  | paren => exact .paren
  | operator => exact .operator (Layer.precedence_lt_rank_atom _)

theorem Follows.atom {layer : Layer} {tokens : List Token} (h : Follows layer tokens) :
    Follows .atom tokens := by
  cases h with
  | nil => exact .nil
  | rightParen => exact .rightParen
  | operator => exact .operator (Layer.precedence_lt_rank_atom _).le

variable {xs ys : List Token}

/-- Tokens that are put into the same order behind anything may replace each other. -/
theorem reorder_congr (h : ∀ waiting, reorder waiting xs = reorder waiting ys)
    (before : List Token) (waiting : List Pending) :
    reorder waiting (before ++ xs) = reorder waiting (before ++ ys) := by
  induction before generalizing waiting with
  | nil => exact h waiting
  | cons token before ih =>
    cases token with
    | number y => rw [List.cons_append, List.cons_append, reorder_number, reorder_number, ih]
    | var x => rw [List.cons_append, List.cons_append, reorder_var, reorder_var, ih]
    | operator op =>
      rw [List.cons_append, List.cons_append, reorder_operator, reorder_operator, ih]
    | leftParen => rw [List.cons_append, List.cons_append, reorder_leftParen, reorder_leftParen, ih]
    | rightParen =>
      rw [List.cons_append, List.cons_append]
      cases hclose : close waiting with
      | error defect =>
        rw [reorder_rightParen_of_error _ _ hclose, reorder_rightParen_of_error _ _ hclose]
      | ok found =>
        rw [reorder_rightParen_of_close _ _ hclose, reorder_rightParen_of_close _ _ hclose, ih]

/-- Where a row of a layer may stand it is enough that they are the same there. -/
theorem reorder_congr_of_opens {layer : Layer} {before : List Token} (ho : Opens layer before)
    (h : ∀ waiting, Precedes layer waiting → reorder waiting xs = reorder waiting ys) :
    reorder [] (before ++ xs) = reorder [] (before ++ ys) := by
  cases ho with
  | nil => exact h [] .nil
  | leftParen =>
    rw [List.append_assoc, List.append_assoc]
    refine reorder_congr (fun waiting => ?_) _ []
    rw [List.singleton_append, List.singleton_append, reorder_leftParen, reorder_leftParen]
    exact h _ .paren
  | operator hop =>
    rw [List.append_assoc, List.append_assoc]
    refine reorder_congr (fun waiting => ?_) _ []
    rw [List.singleton_append, List.singleton_append, reorder_operator, reorder_operator,
      h _ (.operator hop)]

/-- A row is put into the same order with parentheses and without. -/
theorem reorder_group {layer : Layer} {ts rest : List Token} {t : Tree} {waiting : List Pending}
    (ht : Parse layer ts t) (hp : Precedes layer waiting) (hf : Follows layer rest) :
    reorder waiting (.leftParen :: (ts ++ .rightParen :: rest)) = reorder waiting (ts ++ rest) := by
  have hgroup := reorder_parse (.group ht.of_layer) hp.atom hf.atom
  rw [List.cons_append, List.append_assoc, List.singleton_append] at hgroup
  rw [hgroup, reorder_parse ht hp hf]

end Polish

/-- Tokens that take turns behind anything alike may replace each other. -/
theorem checkTurnsFrom_congr {xs ys : List Token}
    (h : ∀ before, checkTurnsFrom before xs = checkTurnsFrom before ys) (ts : List Token)
    (before : Before) : checkTurnsFrom before (ts ++ xs) = checkTurnsFrom before (ts ++ ys) := by
  induction ts generalizing before with
  | nil => exact h before
  | cons token ts ih =>
    simp only [List.cons_append, checkTurnsFrom, ih]

/-- Where a row may stand it is enough that they do so there. -/
theorem checkTurns_congr_of_opens {layer : Layer} {ts xs ys : List Token} (ho : Opens layer ts)
    (h : ∀ before, before ≠ .operand → checkTurnsFrom before xs = checkTurnsFrom before ys) :
    checkTurns (ts ++ xs) = checkTurns (ts ++ ys) := by
  -- behind the last token there is no operand, or that token is already the defect
  have hlast : ∀ token, (∀ before next, Before.after before token = .ok next → next ≠ .operand) →
      ∀ ts, checkTurns (ts ++ [token] ++ xs) = checkTurns (ts ++ [token] ++ ys) := by
    intro token htoken ts
    rw [List.append_assoc, List.append_assoc]
    refine checkTurnsFrom_congr (fun before => ?_) ts .start
    simp only [List.singleton_append, checkTurnsFrom]
    cases hnext : before.after token with
    | error defect => rfl
    | ok next => exact h next (htoken before next hnext)
  cases ho with
  | nil => exact h .start (by simp)
  | leftParen =>
    refine hlast _ (fun before next hnext => ?_) _
    rw [(Before.after_leftParen_eq_ok.mp hnext).2]
    simp
  | operator =>
    refine hlast _ (fun before next hnext => ?_) _
    rw [(Before.after_operator_eq_ok.mp hnext).2]
    simp

/-- A row takes its turn with parentheses and without. -/
theorem Sentence.checkTurnsFrom_group {ts : List Token} (h : Sentence ts) {before : Before}
    (hb : before ≠ .operand) (rest : List Token) :
    checkTurnsFrom before (.leftParen :: (ts ++ .rightParen :: rest))
      = checkTurnsFrom before (ts ++ rest) := by
  have hgroup := h.group.checkTurnsFrom_append hb rest
  rw [List.cons_append, List.append_assoc, List.singleton_append] at hgroup
  rw [hgroup, h.checkTurnsFrom_append hb]

/-- **Parentheses around a row do not matter** if nothing beside it binds more tightly: the tokens
make the same formula without them, or have the same defect. -/
theorem Formula.ofTokens_group {layer : Layer} {before ts rest : List Token} {t : Tree}
    (ho : Opens layer before) (ht : Parse layer ts t) (hf : Polish.Follows layer rest) :
    ofTokens (before ++ .leftParen :: (ts ++ .rightParen :: rest))
      = ofTokens (before ++ (ts ++ rest)) := by
  have hreorder := Polish.reorder_congr_of_opens ho fun _ hp => Polish.reorder_group ht hp hf
  have hturns := checkTurns_congr_of_opens ho fun _ hb => ht.sentence.checkTurnsFrom_group hb rest
  have hvariables : Variables.ofTokens (before ++ .leftParen :: (ts ++ .rightParen :: rest))
      = .ofTokens (before ++ (ts ++ rest)) := by
    simp [Variables.ofTokens, List.filterMap_append, List.filterMap_cons, Token.name?]
  rw [ofTokens, ofTokens, Polish.ofTokens, Polish.ofTokens, hreorder, hturns, hvariables]

/-! ### Spellings -/

/-- The pieces are the same, or numerals for the same number. -/
inductive Piece.Same : Piece → Piece → Prop
  /-- The same piece. -/
  | refl (piece : Piece) : Same piece piece
  /-- Numerals for the same number. -/
  | numeral {chars chars' : List Char} {y : Float} (spells : Spells chars (.number y))
      (spells' : Spells chars' (.number y)) : Same (.run chars) (.run chars')

/-- The second text is another spelling of the first. -/
inductive Respelled : String → String → Prop
  /-- There are other blanks, or letters in the other case. -/
  | condensed {a b : String} : condense a = condense b → Respelled a b
  /-- There are other numerals for the same numbers. -/
  | numerals {a b : String} {pieces pieces' : List Piece} : Cut (condense a) pieces →
      Cut (condense b) pieces' → List.Forall₂ Piece.Same pieces pieces' → Respelled a b
  /-- There are no parentheses around a row that is read as a whole anyway. -/
  | group {a b : String} {layer : Layer} {before ts rest : List Token} {t : Tree} :
      scan a = .ok (before ++ .leftParen :: (ts ++ .rightParen :: rest)) →
      scan b = .ok (before ++ (ts ++ rest)) → Opens layer before → Parse layer ts t →
      Polish.Follows layer rest → Respelled a b
  /-- The other way round. -/
  | symm {a b : String} : Respelled a b → Respelled b a
  /-- One after the other. -/
  | trans {a b c : String} : Respelled a b → Respelled b c → Respelled a c

theorem Piece.Same.token_eq {piece piece' : Piece} (h : piece.Same piece') :
    piece.token = piece'.token := by
  cases h with
  | refl => rfl
  | numeral spells spells' =>
    rw [Piece.token_eq_ok_iff.mpr (.number spells), Piece.token_eq_ok_iff.mpr (.number spells')]

/-- **Other spellings are the same formula**, or have the same defect. -/
theorem Respelled.ofText_eq {a b : String} (h : Respelled a b) :
    Formula.ofText a = Formula.ofText b := by
  induction h with
  | condensed h => rw [Formula.ofText, Formula.ofText, scan, scan, h]
  | @numerals a b _ _ ha hb h =>
    have hscan : scan a = scan b := by
      rw [scan, scan, cut_iff.mp ha, cut_iff.mp hb]
      clear ha hb
      induction h with
      | nil => rfl
      | cons hpiece _ ih => rw [List.mapM_cons, List.mapM_cons, hpiece.token_eq, ih]
    rw [Formula.ofText, Formula.ofText, hscan]
  | group ha hb ho ht hf =>
    rw [Formula.ofText_of_scan ha, Formula.ofText_of_scan hb, Formula.ofTokens_group ho ht hf]
  | symm _ ih => exact ih.symm
  | trans _ _ ih ih' => exact ih.trans ih'

/-- The product in `X1 + (x2*x3)` needs no parentheses, as a sum binds more loosely. -/
example : Respelled "X1 + (x2*x3)" "x1+x2*x3" := by
  have ho : Opens .product ([.var "x1"] ++ [.operator .add]) := .operator (by decide)
  have ht : Parse .product ([.var "x2"] ++ .operator .mul :: [.var "x3"])
      (.node .mul (.var "x2") (.var "x3")) :=
    .row (by decide) (.pass (.pass (.var "x2"))) (.pass (.var "x3"))
  have hgroup : Respelled "x1+(x2*x3)" "x1+x2*x3" := .group rfl rfl ho ht .nil
  have hcondensed : Respelled "X1 + (x2*x3)" "x1+(x2*x3)" := .condensed rfl
  exact hcondensed.trans hgroup

end Downhill
