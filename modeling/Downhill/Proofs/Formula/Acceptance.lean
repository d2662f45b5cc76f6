import Downhill.Formula.Basic
import Downhill.Proofs.Formula.Balance
import Downhill.Proofs.Formula.Grammar

/-!
# Which texts are formulas

A text becomes a formula in two passes over its tokens: one pairs the parentheses, the other looks
at neighbours only. Neither knows the grammar. Together they accept its sentences and nothing else.

The proof goes through the tokens from the left and keeps apart what stands before the innermost
open parenthesis (`Open`) from the row that is being read behind it (`Row`). A closing parenthesis
makes the row inside one more atom of the row outside.

What is proved: a token list is a sentence exactly when its parentheses pair up and its tokens take
turns (`sentence_iff_balanced_and_checkTurns`), and so a text is a formula exactly when its tokens
are a sentence (`ofText_isOk_iff_sentence`).
-/

namespace Downhill

open Before

/-! ### Sentences pass both checks -/

/-- Where an operand may stand a sentence may, and what follows then follows an operand. -/
theorem Sentence.checkTurnsFrom_append {ts : List Token} (h : Sentence ts) {before : Before}
    (hb : before ≠ .operand) (rest : List Token) :
    checkTurnsFrom before (ts ++ rest) = checkTurnsFrom .operand rest := by
  induction h generalizing before rest with
  | number v => exact checkTurnsFrom_of_after (after_number_eq_ok.mpr ⟨hb, rfl⟩) rest
  | var x => exact checkTurnsFrom_of_after (after_var_eq_ok.mpr ⟨hb, rfl⟩) rest
  | group _ ih =>
    rw [List.cons_append, checkTurnsFrom_of_after (after_leftParen_eq_ok.mpr ⟨hb, rfl⟩),
      List.append_assoc, ih (by simp)]
    exact checkTurnsFrom_of_after (after_rightParen_eq_ok.mpr ⟨rfl, rfl⟩) rest
  | row op _ _ ihl ihr =>
    rw [List.append_assoc, ihl hb, List.cons_append,
      checkTurnsFrom_of_after (after_operator_eq_ok.mpr ⟨rfl, rfl⟩)]
    exact ihr (by simp) rest

theorem Sentence.checkTurns_eq_ok {ts : List Token} (h : Sentence ts) : checkTurns ts = .ok () := by
  have hts : checkTurnsFrom .start (ts ++ []) = checkTurnsFrom .operand [] :=
    h.checkTurnsFrom_append (by simp) []
  rw [List.append_nil] at hts
  exact hts

/-- A sentence closes its own parentheses and no others. -/
theorem Sentence.closes_append {ts : List Token} (h : Sentence ts) (n : Nat) (rest : List Token) :
    Closes n (ts ++ rest) ↔ Closes n rest := by
  induction h generalizing n rest with
  | number v => exact Iff.rfl
  | var x => exact Iff.rfl
  | @group ts _ ih =>
    rw [List.cons_append, List.append_assoc, Closes, ih]
    rfl
  | row op _ _ ihl ihr =>
    rw [List.append_assoc, ihl, List.cons_append, Closes, ihr]

theorem Sentence.balanced {ts : List Token} (h : Sentence ts) : Balanced ts := by
  have hts := h.closes_append 0 []
  rw [List.append_nil] at hts
  exact balanced_iff_closes.mpr (hts.mpr rfl)

/-! ### What passes both checks is a sentence -/

/-- The row behind the innermost open parenthesis, by the token it ends in. -/
inductive Row : Before → List Token → Prop where
  /-- There is no token yet. -/
  | start : Row .start []
  /-- The parenthesis has just been opened. -/
  | leftParen : Row .leftParen []
  /-- A sentence, and an operator behind it. -/
  | operator {ts : List Token} (op : Operator) :
      Sentence ts → Row (.operator op) (ts ++ [.operator op])
  /-- A sentence. -/
  | operand {ts : List Token} : Sentence ts → Row .operand ts

/-- So many parentheses are open, the last token being the innermost one. Before each stands a row
that waits for an operand. -/
inductive Open : Nat → List Token → Prop where
  /-- No parenthesis is open. -/
  | none : Open 0 []
  /-- One more is opened where an operand may stand. -/
  | paren {n : Nat} {outer row : List Token} {before : Before} :
      Open n outer → Row before row → before ≠ .operand →
      Open (n + 1) (outer ++ row ++ [.leftParen])

/-- An atom behind a row that waits for an operand completes a sentence. -/
theorem Row.sentence_append {before : Before} {row atom : List Token} (h : Row before row)
    (hb : before ≠ .operand) (ha : Sentence atom) : Sentence (row ++ atom) := by
  cases h with
  | start => exact ha
  | leftParen => exact ha
  | operator op hs =>
    rw [List.append_assoc]
    exact .row op hs ha
  | operand => exact absurd rfl hb

theorem Row.sentence {row : List Token} (h : Row .operand row) : Sentence row := by
  cases h
  assumption

/-- **What is found right completes a sentence**: tokens that take turns and close what is open make
a sentence of all that stands before them. -/
theorem sentence_of_checkTurnsFrom {n : Nat} {outer row ts : List Token} {before : Before}
    (ho : Open n outer) (hr : Row before row) (ht : checkTurnsFrom before ts = .ok ())
    (hc : Closes n ts) : Sentence (outer ++ row ++ ts) := by
  induction ts generalizing n outer row before with
  | nil =>
    obtain rfl : n = 0 := hc
    obtain rfl : before = .operand := isEnd_eq_ok.mp ht
    cases ho
    simpa using hr.sentence
  | cons t ts ih =>
    obtain ⟨next, hnext, ht⟩ := checkTurnsFrom_cons_eq_ok.mp ht
    cases t with
    | number v =>
      obtain ⟨hb, rfl⟩ := after_number_eq_ok.mp hnext
      simpa using ih ho (.operand (hr.sentence_append hb (.number v))) ht hc
    | var x =>
      obtain ⟨hb, rfl⟩ := after_var_eq_ok.mp hnext
      simpa using ih ho (.operand (hr.sentence_append hb (.var x))) ht hc
    | operator op =>
      obtain ⟨rfl, rfl⟩ := after_operator_eq_ok.mp hnext
      simpa using ih ho (.operator op hr.sentence) ht hc
    | leftParen =>
      obtain ⟨hb, rfl⟩ := after_leftParen_eq_ok.mp hnext
      simpa using ih (.paren ho hr hb) .leftParen ht hc
    | rightParen =>
      obtain ⟨rfl, rfl⟩ := after_rightParen_eq_ok.mp hnext
      cases ho with
      | none => exact hc.elim
      | paren ho houter hb =>
        have hgroup := houter.sentence_append hb (.group hr.sentence)
        simpa using ih ho (.operand hgroup) ht hc

/-- **The two checks accept the sentences of the grammar.** -/
theorem sentence_iff_balanced_and_checkTurns {ts : List Token} :
    Sentence ts ↔ Balanced ts ∧ checkTurns ts = .ok () := by
  constructor
  · intro h
    exact ⟨h.balanced, h.checkTurns_eq_ok⟩
  · rintro ⟨hb, ht⟩
    exact sentence_of_checkTurnsFrom .none .start ht (balanced_iff_closes.mp hb)

namespace Formula

theorem exists_ofTokens_iff {tokens : List Token} :
    (∃ f, ofTokens tokens = .ok f) ↔ Sentence tokens := by
  rw [sentence_iff_balanced_and_checkTurns]
  constructor
  · rintro ⟨f, hf⟩
    obtain ⟨program, hp, ht, -⟩ := ofTokens_eq_ok_iff.mp hf
    refine ⟨?_, ht⟩
    by_contra hb
    rw [Polish.ofTokens_of_not_balanced hb] at hp
    cases hp
  · rintro ⟨hb, ht⟩
    obtain ⟨program, hp⟩ := Polish.ofTokens_of_balanced hb
    exact ⟨_, ofTokens_eq_ok_iff.mpr ⟨program, hp, ht, rfl⟩⟩

theorem ofTokens_of_not_balanced {tokens : List Token} (h : ¬ Balanced tokens) :
    ofTokens tokens = .error .unbalanced := by
  rw [ofTokens, Polish.ofTokens_of_not_balanced h]
  rfl

/-- **The texts that are formulas, and which defect is reported first**: a text is a formula exactly
when its tokens are a sentence. If it has no tokens, what is wrong with them is the defect. If it
has and their parentheses do not pair up, that is the defect, whatever else is wrong. -/
theorem ofText_isOk_iff_sentence (text : String) :
    ((∃ f, ofText text = .ok f) ↔ ∃ tokens, scan text = .ok tokens ∧ Sentence tokens) ∧
      (∀ tokens, scan text = .ok tokens → ¬ Balanced tokens →
        ofText text = .error .unbalanced) ∧
      ∀ defect, scan text = .error defect → ofText text = .error defect := by
  refine ⟨⟨?_, ?_⟩, ?_, fun defect => ofText_of_scan_error⟩
  · rintro ⟨f, hf⟩
    obtain ⟨tokens, hs, ht⟩ := exists_scan_of_ofText hf
    exact ⟨tokens, hs, exists_ofTokens_iff.mp ⟨f, ht⟩⟩
  · rintro ⟨tokens, hs, ht⟩
    rw [ofText_of_scan hs]
    exact exists_ofTokens_iff.mpr ht
  · intro tokens hs hb
    rw [ofText_of_scan hs, ofTokens_of_not_balanced hb]

/-- In `x1)+(` an operator lacks an operand and a group is empty. The parentheses are the defect. -/
theorem ofText_reports_parentheses_first : ofText "x1)+(" = .error .unbalanced := by
  have hscan : scan "x1)+(" = .ok [.var "x1", .rightParen, .operator .add, .leftParen] := rfl
  exact (ofText_isOk_iff_sentence "x1)+(").2.1 _ hscan (by decide)

end Formula

end Downhill
