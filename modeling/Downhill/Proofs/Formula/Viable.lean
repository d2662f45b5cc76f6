import Downhill.Proofs.Formula.Acceptance
import Downhill.Proofs.Formula.Pass

/-!
# The first defect of a token list

Tokens are viable if more tokens can follow that make a sentence of them. A list that is no sentence
either has a first token that makes its beginning unviable, or is viable as a whole and only ends too
early. The check of `checkTurns` does not know the grammar, and looks back one token only. Where the
parentheses pair up it finds that first token all the same, and what it reports is told by the token
and the one before it.

A beginning is viable exactly when its tokens take turns and it closes no more parentheses than it
opens (`viable_iff`): then an operand, if one is due, and the missing closing parentheses complete it
(`completion`).

What is proved: if the parentheses of a token list pair up, the check reports a defect exactly when
it is the first one, and so is the defect of every text of these tokens
(`Formula.firstDefect_iff_reported`).
-/

namespace Downhill

open Before

/-- What stands before the next token once all of these have been found in their places. -/
def Before.afterAll (before : Before) (ts : List Token) : Except Defect Before :=
  ts.foldlM after before

/-- The check goes through the tokens and then looks whether they may end. -/
theorem checkTurnsFrom_eq_afterAll (before : Before) (ts : List Token) :
    checkTurnsFrom before ts = (before.afterAll ts >>= isEnd) := by
  induction ts generalizing before with
  | nil => rfl
  | cons t ts ih =>
    rw [checkTurnsFrom, afterAll, List.foldlM_cons]
    cases before.after t with
    | error defect => rfl
    | ok next => exact ih next

theorem checkTurns_append_of_ok {before : Before} {ts : List Token}
    (h : start.afterAll ts = .ok before) (us : List Token) :
    checkTurns (ts ++ us) = checkTurnsFrom before us := by
  rw [checkTurns, checkTurnsFrom_eq_afterAll, checkTurnsFrom_eq_afterAll, afterAll,
    foldlM_append_of_ok h, afterAll]

/-- A list whose check finds nothing has a beginning whose check finds nothing. -/
theorem exists_afterAll_of_checkTurns {ts us : List Token} (h : checkTurns (ts ++ us) = .ok ()) :
    ∃ before, start.afterAll ts = .ok before := by
  rw [checkTurns, checkTurnsFrom_eq_afterAll] at h
  cases hall : start.afterAll (ts ++ us) with
  | ok last => exact exists_foldlM_of_append hall
  | error defect =>
    rw [hall] at h
    cases h

/-! ### Beginnings of sentences -/

/-- More tokens can follow that make a sentence. -/
def Viable (ts : List Token) : Prop := ∃ us, Sentence (ts ++ us)

/-- A beginning closes no more parentheses than it opens, and leaves the others to be closed. -/
theorem closes_append_iff {n : Nat} {ts us : List Token}
    (h : ∀ vs, vs <+: ts → closed vs ≤ n + opened vs) :
    Closes n (ts ++ us) ↔ Closes (n + opened ts - closed ts) us := by
  induction ts generalizing n with
  | nil => simp
  | cons t ts ih =>
    obtain ⟨-, h⟩ := forall_prefix_cons.mp h
    cases t with
    | leftParen =>
      have hts : ∀ vs, vs <+: ts → closed vs ≤ n + 1 + opened vs := fun vs hvs => by
        simpa [Nat.add_assoc, Nat.add_comm 1] using h vs hvs
      rw [List.cons_append, Closes, ih hts]
      simp [Nat.add_assoc, Nat.add_comm 1]
    | rightParen =>
      cases n with
      | zero => exact absurd (h [] List.nil_prefix) (by simp)
      | succ n =>
        have hts : ∀ vs, vs <+: ts → closed vs ≤ n + opened vs := fun vs hvs => by
          simpa [Nat.add_right_comm n 1] using h vs hvs
        rw [List.cons_append, Closes, ih hts]
        simp [Nat.add_right_comm n 1]
    | number v => simpa [Closes] using ih (by simpa using h)
    | var x => simpa [Closes] using ih (by simpa using h)
    | operator op => simpa [Closes] using ih (by simpa using h)

/-- Tokens that complete what stands before them: an operand where one is due, and then a closing
parenthesis for each that is open. -/
def completion : Before → Nat → List Token
  | operand, n => List.replicate n .rightParen
  | _, n => .number 0 :: List.replicate n .rightParen

theorem closes_replicate (n : Nat) : Closes n (List.replicate n .rightParen) := by
  induction n with
  | zero => rfl
  | succ n ih => exact ih

theorem closes_completion (before : Before) (n : Nat) : Closes n (completion before n) := by
  cases before <;> exact closes_replicate n

theorem checkTurnsFrom_replicate (n : Nat) :
    checkTurnsFrom operand (List.replicate n .rightParen) = .ok () := by
  induction n with
  | zero => rfl
  | succ n ih =>
    rw [List.replicate_succ, checkTurnsFrom_of_after (after_rightParen_eq_ok.mpr ⟨rfl, rfl⟩), ih]

theorem checkTurnsFrom_completion (before : Before) (n : Nat) :
    checkTurnsFrom before (completion before n) = .ok () := by
  by_cases hb : before = operand
  · subst hb
    exact checkTurnsFrom_replicate n
  · have hcompletion : completion before n = .number 0 :: List.replicate n .rightParen := by
      cases before <;> simp_all [completion]
    rw [hcompletion, checkTurnsFrom_of_after (after_number_eq_ok.mpr ⟨hb, rfl⟩),
      checkTurnsFrom_replicate]

/-- **Tokens are viable** when they take turns and close no parenthesis that is not open. -/
theorem viable_iff {ts : List Token} :
    Viable ts ↔ (∃ before, start.afterAll ts = .ok before) ∧
      ∀ us, us <+: ts → closed us ≤ opened us := by
  constructor
  · rintro ⟨rest, hs⟩
    obtain ⟨hbalanced, hturns⟩ := sentence_iff_balanced_and_checkTurns.mp hs
    exact ⟨exists_afterAll_of_checkTurns hturns,
      fun us hus => hbalanced.closed_le us (hus.trans (List.prefix_append ts rest))⟩
  · rintro ⟨⟨before, hturns⟩, hclosed⟩
    refine ⟨completion before (opened ts - closed ts),
      sentence_iff_balanced_and_checkTurns.mpr ⟨balanced_iff_closes.mpr ?_, ?_⟩⟩
    · rw [closes_append_iff (by simpa using hclosed), Nat.zero_add]
      exact closes_completion before _
    · rw [checkTurns_append_of_ok hturns]
      exact checkTurnsFrom_completion before _

/-- Where parentheses pair up, a beginning is viable when its tokens take turns. -/
theorem Balanced.viable_iff_of_prefix {ts us : List Token} (hb : Balanced ts) (hu : us <+: ts) :
    Viable us ↔ ∃ before, start.afterAll us = .ok before := by
  rw [viable_iff, and_iff_left]
  exact fun vs hvs => hb.closed_le vs (hvs.trans hu)

/-! ### Where and why a list is no sentence -/

/-- The tokens end with an operand: a number, a variable or a closing parenthesis. -/
def EndsOperand (ts : List Token) : Prop :=
  ∃ t, ts.getLast? = some t ∧ (t.isOperand = true ∨ t = .rightParen)

/-- The token is out of its place behind the tokens, for this reason. -/
inductive Misplaced (ts : List Token) : Token → Defect → Prop where
  /-- An operand or an opening parenthesis stands behind an operand. -/
  | operand {t : Token} :
      EndsOperand ts → t.isOperand = true ∨ t = .leftParen → Misplaced ts t .missingOperator
  /-- An operator does not stand behind an operand. -/
  | operator {op : Operator} : ¬ EndsOperand ts → Misplaced ts (.operator op) (.missingOperand op)
  /-- A closing parenthesis stands behind an operator. -/
  | closing {op : Operator} :
      ts.getLast? = some (.operator op) → Misplaced ts .rightParen (.missingOperand op)
  /-- A closing parenthesis stands behind an opening one. -/
  | group : ts.getLast? = some .leftParen → Misplaced ts .rightParen .empty

/-- The tokens end too early, for this reason. -/
inductive Unfinished (ts : List Token) : Defect → Prop where
  /-- There are no tokens. -/
  | empty : ts = [] → Unfinished ts .empty
  /-- The last token is an operator. -/
  | operator {op : Operator} :
      ts.getLast? = some (.operator op) → Unfinished ts (.missingOperand op)

section Reasons

variable {ts : List Token} {defect : Defect}

theorem misplaced_operand_iff {t : Token} (ht : t.isOperand = true ∨ t = .leftParen) :
    Misplaced ts t defect ↔ EndsOperand ts ∧ defect = .missingOperator := by
  constructor
  · intro h
    cases h with
    | operand hends => exact ⟨hends, rfl⟩
    | operator | closing | group => simp [Token.isOperand] at ht
  · rintro ⟨hends, rfl⟩
    exact .operand hends ht

theorem misplaced_operator_iff {op : Operator} :
    Misplaced ts (.operator op) defect ↔ ¬ EndsOperand ts ∧ defect = .missingOperand op := by
  constructor
  · intro h
    cases h with
    | operand _ ht => simp [Token.isOperand] at ht
    | operator hends => exact ⟨hends, rfl⟩
  · rintro ⟨hends, rfl⟩
    exact .operator hends

theorem misplaced_rightParen_iff :
    Misplaced ts .rightParen defect ↔
      (∃ op, ts.getLast? = some (.operator op) ∧ defect = .missingOperand op) ∨
        ts.getLast? = some .leftParen ∧ defect = .empty := by
  constructor
  · intro h
    cases h with
    | operand _ ht => simp [Token.isOperand] at ht
    | closing hlast => exact .inl ⟨_, hlast, rfl⟩
    | group hlast => exact .inr ⟨hlast, rfl⟩
  · rintro (⟨op, hlast, rfl⟩ | ⟨hlast, rfl⟩)
    · exact .closing hlast
    · exact .group hlast

theorem unfinished_iff :
    Unfinished ts defect ↔
      (∃ op, ts.getLast? = some (.operator op) ∧ defect = .missingOperand op) ∨
        ts = [] ∧ defect = .empty := by
  constructor
  · intro h
    cases h with
    | empty hnil => exact .inr ⟨hnil, rfl⟩
    | operator hlast => exact .inl ⟨_, hlast, rfl⟩
  · rintro (⟨op, hlast, rfl⟩ | ⟨hnil, rfl⟩)
    · exact .operator hlast
    · exact .empty hnil

end Reasons

/-- The first defect of a token list. -/
inductive FirstDefect (ts : List Token) : Defect → Prop where
  /-- The tokens up to a place can go on to a sentence, but not with the token there. -/
  | misplaced {us vs : List Token} {t : Token} {defect : Defect} :
      ts = us ++ t :: vs → Viable us → ¬ Viable (us ++ [t]) → Misplaced us t defect →
      FirstDefect ts defect
  /-- The tokens can go on to a sentence, but are none. -/
  | unfinished {defect : Defect} :
      Viable ts → ¬ Sentence ts → Unfinished ts defect → FirstDefect ts defect

/-- What a token is to the token behind it. -/
def Before.behind : Token → Before
  | .number _ | .var _ | .rightParen => .operand
  | .operator op => .operator op
  | .leftParen => .leftParen

/-- A token that is in its place is what stands before the next one, whatever stood before it. -/
theorem Before.eq_behind_of_after {before next : Before} {t : Token}
    (h : before.after t = .ok next) : next = behind t := by
  cases t with
  | number v => exact (after_number_eq_ok.mp h).2
  | var x => exact (after_var_eq_ok.mp h).2
  | operator op => exact (after_operator_eq_ok.mp h).2
  | leftParen => exact (after_leftParen_eq_ok.mp h).2
  | rightParen => exact (after_rightParen_eq_ok.mp h).2

/-- Only the last of the tokens stands before the next one. -/
theorem Before.eq_of_afterAll {before : Before} {ts : List Token}
    (h : start.afterAll ts = .ok before) :
    before = (ts.getLast?.map behind).getD start := by
  refine foldlM_induction (P := fun ts before => before = (ts.getLast?.map behind).getD start)
    rfl ?_ h
  intro ts t _ next _ hnext
  simpa using eq_behind_of_after hnext

section Last

variable {before : Before} {ts : List Token} (h : start.afterAll ts = .ok before)
include h

theorem endsOperand_iff : EndsOperand ts ↔ before = operand := by
  rw [Before.eq_of_afterAll h, EndsOperand]
  cases ts.getLast? with
  | none => simp
  | some t => cases t <;> simp [behind, Token.isOperand]

theorem getLast?_eq_operator_iff {op : Operator} :
    ts.getLast? = some (.operator op) ↔ before = operator op := by
  rw [Before.eq_of_afterAll h]
  cases ts.getLast? with
  | none => simp
  | some t => cases t <;> simp [behind]

theorem getLast?_eq_leftParen_iff : ts.getLast? = some .leftParen ↔ before = leftParen := by
  rw [Before.eq_of_afterAll h]
  cases ts.getLast? with
  | none => simp
  | some t => cases t <;> simp [behind]

theorem eq_nil_iff : ts = [] ↔ before = start := by
  rw [Before.eq_of_afterAll h, ← List.getLast?_eq_none_iff]
  cases ts.getLast? with
  | none => simp
  | some t => cases t <;> simp [behind]

/-- A token is out of its place for the reason that the check gives. Only a closing parenthesis
without a partner may be the first token. -/
theorem after_eq_error_iff_misplaced {t : Token} {defect : Defect}
    (hfirst : t = .rightParen → ts ≠ []) :
    before.after t = .error defect ↔ Misplaced ts t defect := by
  cases t with
  | number v => rw [after_number_eq_error, misplaced_operand_iff (.inl rfl), endsOperand_iff h]
  | var x => rw [after_var_eq_error, misplaced_operand_iff (.inl rfl), endsOperand_iff h]
  | operator op => rw [after_operator_eq_error, misplaced_operator_iff, endsOperand_iff h]
  | leftParen => rw [after_leftParen_eq_error, misplaced_operand_iff (.inr rfl), endsOperand_iff h]
  | rightParen =>
    have hstart : before ≠ start := (eq_nil_iff h).not.mp (hfirst rfl)
    simp [after_rightParen_eq_error, misplaced_rightParen_iff, getLast?_eq_operator_iff h,
      getLast?_eq_leftParen_iff h, hstart]

/-- Tokens end too early for the reason that the check gives, unless the last one opens a
parenthesis. -/
theorem isEnd_eq_error_iff_unfinished {defect : Defect}
    (hlast : ts.getLast? ≠ some .leftParen) :
    before.isEnd = .error defect ↔ Unfinished ts defect := by
  have hparen : before ≠ leftParen := (getLast?_eq_leftParen_iff h).not.mp hlast
  simp [isEnd_eq_error, unfinished_iff, getLast?_eq_operator_iff h, eq_nil_iff h, hparen]

end Last

/-- Where parentheses pair up the first token does not close one. -/
theorem Balanced.ne_nil_of_rightParen {us vs : List Token} {t : Token}
    (hb : Balanced (us ++ t :: vs)) (ht : t = .rightParen) : us ≠ [] := by
  rintro rfl
  subst ht
  simpa using hb.closed_le [.rightParen] ⟨vs, rfl⟩

/-- Where parentheses pair up the last token does not open one. -/
theorem Balanced.getLast?_ne_leftParen {ts : List Token} (hb : Balanced ts) :
    ts.getLast? ≠ some .leftParen := by
  intro hlast
  obtain ⟨us, rfl⟩ := List.getLast?_eq_some_iff.mp hlast
  have hopened : opened (us ++ [.leftParen]) = opened us + 1 := by simp [opened]
  have hclosed : closed (us ++ [.leftParen]) = closed us := by simp [closed]
  have hle := hb.closed_le us (List.prefix_append us _)
  have heq := hb.closed_eq
  omega

/-- What the check reports is the first defect. -/
theorem Balanced.firstDefect_of_checkTurns {ts : List Token} (hb : Balanced ts) {defect : Defect}
    (h : checkTurns ts = .error defect) : FirstDefect ts defect := by
  have hrun := h
  rw [checkTurns, checkTurnsFrom_eq_afterAll] at hrun
  cases hall : start.afterAll ts with
  | error first =>
    obtain rfl : first = defect := by simpa [hall, bind, Except.bind] using hrun
    obtain ⟨us, t, vs, next, rfl, hus, ht⟩ := foldlM_eq_error_iff.mp hall
    have hviable := hb.viable_iff_of_prefix (List.prefix_append us _)
    have hnext : us ++ [t] <+: us ++ t :: vs := ⟨vs, by simp⟩
    refine .misplaced rfl (hviable.mpr ⟨next, hus⟩) ?_
      ((after_eq_error_iff_misplaced hus hb.ne_nil_of_rightParen).mp ht)
    rw [hb.viable_iff_of_prefix hnext, afterAll, foldlM_concat_of_ok hus, ht]
    simp
  | ok last =>
    have hend : last.isEnd = .error defect := by simpa [hall, bind, Except.bind] using hrun
    refine .unfinished ((hb.viable_iff_of_prefix List.prefix_rfl).mpr ⟨last, hall⟩) ?_
      ((isEnd_eq_error_iff_unfinished hall hb.getLast?_ne_leftParen).mp hend)
    intro hs
    cases h.symm.trans hs.checkTurns_eq_ok

/-- The first defect is what the check reports. -/
theorem Balanced.checkTurns_of_firstDefect {ts : List Token} (hb : Balanced ts) {defect : Defect}
    (h : FirstDefect ts defect) : checkTurns ts = .error defect := by
  rw [checkTurns, checkTurnsFrom_eq_afterAll]
  cases h with
  | @misplaced us vs t _ hts hviable _ hm =>
    subst hts
    obtain ⟨next, hus⟩ := (hb.viable_iff_of_prefix (List.prefix_append us _)).mp hviable
    have ht := (after_eq_error_iff_misplaced hus hb.ne_nil_of_rightParen).mpr hm
    rw [afterAll, foldlM_eq_error_iff.mpr ⟨us, t, vs, next, rfl, hus, ht⟩]
    rfl
  | unfinished hviable _ hu =>
    obtain ⟨last, hall⟩ := (hb.viable_iff_of_prefix List.prefix_rfl).mp hviable
    rw [hall]
    exact (isEnd_eq_error_iff_unfinished hall hb.getLast?_ne_leftParen).mpr hu

namespace Formula

/-- A token list whose parentheses pair up is no formula for the reason that the check of its turns
gives. -/
theorem ofTokens_eq_error_iff_of_balanced {tokens : List Token} (hb : Balanced tokens)
    {defect : Defect} : ofTokens tokens = .error defect ↔ checkTurns tokens = .error defect := by
  obtain ⟨program, hp⟩ := Polish.ofTokens_of_balanced hb
  rw [ofTokens, hp]
  cases checkTurns tokens <;> simp [bind, Except.bind, pure, Except.pure]

/-- **The defect reported is the first one.** If the parentheses of a token list pair up, the check
of its turns reports a defect exactly when it is the first: either some first token cannot follow
those before it in any sentence, and the defect says how it is out of its place behind the last of
them, or the tokens could go on and end too early. The texts of these tokens have the same defect. -/
theorem firstDefect_iff_reported {tokens : List Token} (hb : Balanced tokens) (defect : Defect) :
    (checkTurns tokens = .error defect ↔ FirstDefect tokens defect) ∧
      ∀ text, scan text = .ok tokens →
        (ofText text = .error defect ↔ FirstDefect tokens defect) := by
  have hcheck : checkTurns tokens = .error defect ↔ FirstDefect tokens defect :=
    ⟨hb.firstDefect_of_checkTurns, hb.checkTurns_of_firstDefect⟩
  refine ⟨hcheck, fun text hs => ?_⟩
  rw [ofText_of_scan hs, ofTokens_eq_error_iff_of_balanced hb, hcheck]

/-- In `x1*(x2-)x3` the parenthesis that ends the difference is out of its place, and comes before
the variable that is. -/
theorem firstDefect_of_unfinished_difference :
    ∃ tokens, scan "x1*(x2-)x3" = .ok tokens ∧ Balanced tokens ∧
      FirstDefect tokens (.missingOperand .sub) ∧
      ofText "x1*(x2-)x3" = .error (.missingOperand .sub) := by
  let tokens : List Token := [.var "x1", .operator .mul, .leftParen, .var "x2", .operator .sub,
    .rightParen, .var "x3"]
  have hscan : scan "x1*(x2-)x3" = .ok tokens := rfl
  have hb : Balanced tokens := by decide
  obtain ⟨hcheck, htext⟩ := firstDefect_iff_reported hb (.missingOperand .sub)
  have hfirst : FirstDefect tokens (.missingOperand .sub) := hcheck.mp rfl
  exact ⟨tokens, hscan, hb, hfirst, (htext _ hscan).mpr hfirst⟩

end Formula

end Downhill
