import Downhill.Formula.Scan

/-!
# Reading by longest match

`scan` looks for the separators of a text first. A lexer does not: it is asked for the longest token
that a text begins with, then for the longest one that the rest begins with, and so on. Where a run is
no token as a whole it may find a token in it all the same, and another one behind it, as in `1.2.3`,
or nothing, as in `x1y`. So the place is kept at which the operand that was read last begins, as long
as no separator has come after it. What is found there but a separator makes the whole run from that
place on the defect.

Any lexer of longest matches will do. There is one: it looks for a separator, for digits with a point
among them, and for a name (`Lexer.greedy`).
-/

namespace Downhill

namespace Lexer

open Decimal (isDigit natOfDigits natOfDigits_append span_isDigit)

/-! ### How tokens are spelled -/

/-- The characters spell the token. -/
inductive Spells : List Char → Token → Prop
  /-- An opening parenthesis. -/
  | leftParen : Spells ['('] .leftParen
  /-- A closing parenthesis. -/
  | rightParen : Spells [')'] .rightParen
  /-- The sign of an operator. -/
  | operator (op : Operator) : Spells [op.symbol] (.operator op)
  /-- Digits. -/
  | whole {ds : List Char} (hne : ds ≠ []) (hds : ∀ d ∈ ds, isDigit d = true) :
      Spells ds (.number (.ofScientific (natOfDigits 0 ds) true 0))
  /-- Digits with a point among them, which may stand at either end. -/
  | fraction {ds es : List Char} (hne : ds ≠ [] ∨ es ≠ []) (hds : ∀ d ∈ ds, isDigit d = true)
      (hes : ∀ d ∈ es, isDigit d = true) :
      Spells (ds ++ '.' :: es) (.number (.ofScientific (natOfDigits 0 (ds ++ es)) true es.length))
  /-- An `x` and digits. -/
  | name {ds : List Char} (hne : ds ≠ []) (hds : ∀ d ∈ ds, isDigit d = true) :
      Spells ('x' :: ds) (.var (String.ofList ('x' :: ds)))

/-- The separators are the parentheses and the signs of operators. -/
theorem separator?_eq_some_iff {c : Char} {token : Token} :
    separator? c = some token ↔ Spells [c] token ∧ token.isOperand = false := by
  constructor
  · intro h
    unfold separator? at h
    split at h
    · cases h
      exact ⟨.leftParen, rfl⟩
    · cases h
      exact ⟨.rightParen, rfl⟩
    · obtain ⟨op, hop, rfl⟩ := Option.map_eq_some_iff.mp h
      rw [Operator.ofSymbol?_eq_some_iff.mp hop]
      exact ⟨.operator op, rfl⟩
  · rintro ⟨h, hoperand⟩
    generalize hcs : [c] = cs at h
    cases h with
    | leftParen =>
      cases hcs
      rfl
    | rightParen =>
      cases hcs
      rfl
    | operator op =>
      cases hcs
      cases op <;> rfl
    | whole | fraction | name => cases hoperand

/-- A digit is no separator, and so are the other characters of operands. -/
theorem separator?_of_isDigit {c : Char} (h : isDigit c = true) : separator? c = none := by
  rw [Option.eq_none_iff_forall_ne_some]
  intro token htoken
  obtain ⟨hspelled, -⟩ := separator?_eq_some_iff.mp htoken
  unfold separator? at htoken
  split at htoken
  · exact absurd h (by decide)
  · exact absurd h (by decide)
  · obtain ⟨op, hop, -⟩ := Option.map_eq_some_iff.mp htoken
    rw [Operator.ofSymbol?_eq_some_iff.mp hop] at h
    cases op <;> exact absurd h (by decide)

theorem isVariableName_iff {cs : List Char} :
    isVariableName cs = true ↔ ∃ ds, ds ≠ [] ∧ (∀ d ∈ ds, isDigit d = true) ∧ cs = 'x' :: ds := by
  constructor
  · intro h
    unfold isVariableName at h
    split at h
    next d ds => exact ⟨d :: ds, List.cons_ne_nil _ _, List.all_eq_true.mp h, rfl⟩
    next => cases h
  · rintro ⟨ds, hne, hds, rfl⟩
    obtain ⟨d, ds, rfl⟩ := List.exists_cons_of_ne_nil hne
    exact List.all_eq_true.mpr hds

/-- The numerals are the spellings of numbers. -/
theorem readNumeral?_eq_some_iff {cs : List Char} {y : Float} :
    Decimal.readNumeral? cs = some y ↔ Spells cs (.number y) := by
  constructor
  · intro h
    have hwhole : ∀ d ∈ cs.takeWhile isDigit, isDigit d = true :=
      List.all_eq_true.mp List.all_takeWhile
    have hsplit := List.takeWhile_append_dropWhile (p := isDigit) (l := cs)
    rw [Decimal.readNumeral?] at h
    generalize cs.takeWhile isDigit = ds at h hwhole hsplit
    generalize cs.dropWhile isDigit = rest at h hsplit
    subst hsplit
    split at h
    · split at h
      · cases h
      next hne =>
        cases h
        rw [List.append_nil]
        exact .whole (by simpa using hne) hwhole
    next es =>
      split at h
      next hes =>
        cases h
        rw [← natOfDigits_append]
        simp only [Bool.and_eq_true, List.all_eq_true, Bool.not_eq_true', Bool.and_eq_false_iff,
          List.isEmpty_eq_false_iff] at hes
        exact .fraction hes.2 hwhole hes.1
      · cases h
    · cases h
  · intro h
    generalize htoken : Token.number y = token at h
    cases h with
    | whole hne hds =>
      cases htoken
      obtain ⟨htake, hdrop⟩ := span_isDigit hds [] (by simp)
      rw [List.append_nil] at htake hdrop
      simp [Decimal.readNumeral?, htake, hdrop, hne]
    | @fraction ds es hne hds hes =>
      cases htoken
      obtain ⟨htake, hdrop⟩ := span_isDigit hds ('.' :: es) (by simp; decide)
      have hall : (es.all isDigit && !(ds.isEmpty && es.isEmpty)) = true := by
        simp only [Bool.and_eq_true, List.all_eq_true, Bool.not_eq_true', Bool.and_eq_false_iff,
          List.isEmpty_eq_false_iff]
        exact ⟨hes, hne⟩
      simp only [Decimal.readNumeral?, htake, hdrop, hall, if_true, natOfDigits_append]
    | leftParen | rightParen | operator | name => cases htoken

/-- No name is a number. -/
theorem not_spells_number {cs : List Char} {y : Float} : ¬ Spells ('x' :: cs) (.number y) := by
  intro h
  have hread := readNumeral?_eq_some_iff.mpr h
  simp [Decimal.readNumeral?, show isDigit 'x' = false from rfl] at hread

/-- The operands are numbers and variables. -/
theorem operand?_eq_some_iff {cs : List Char} {token : Token} :
    operand? cs = some token ↔ Spells cs token ∧ token.isOperand = true := by
  unfold operand?
  by_cases hname : isVariableName cs = true
  · obtain ⟨ds, hne, hds, rfl⟩ := isVariableName_iff.mp hname
    rw [if_pos hname, Option.some.injEq]
    constructor
    · rintro rfl
      exact ⟨.name hne hds, rfl⟩
    · rintro ⟨h, hoperand⟩
      cases token with
      | number y => exact absurd h not_spells_number
      | var name =>
        generalize 'x' :: ds = cs at h ⊢
        cases h
        rfl
      | operator | leftParen | rightParen => cases hoperand
  · rw [if_neg hname, Option.map_eq_some_iff]
    constructor
    · rintro ⟨y, hy, rfl⟩
      exact ⟨readNumeral?_eq_some_iff.mp hy, rfl⟩
    · rintro ⟨h, hoperand⟩
      cases token with
      | number y => exact ⟨y, readNumeral?_eq_some_iff.mpr h, rfl⟩
      | var name =>
        cases h with
        | name hne hds => exact absurd (isVariableName_iff.mpr ⟨_, hne, hds, rfl⟩) hname
      | operator | leftParen | rightParen => cases hoperand

/-- A token is a separator by itself or has none in it. -/
theorem Spells.separators {cs : List Char} {token : Token} (h : Spells cs token) :
    (token.isOperand = false ∧ ∃ c, cs = [c] ∧ separator? c = some token)
      ∨ (token.isOperand = true ∧ ∀ c ∈ cs, separator? c = none) := by
  cases h with
  | leftParen => exact .inl ⟨rfl, _, rfl, rfl⟩
  | rightParen => exact .inl ⟨rfl, _, rfl, rfl⟩
  | operator op => exact .inl ⟨rfl, _, rfl, separator?_eq_some_iff.mpr ⟨.operator op, rfl⟩⟩
  | whole hne hds => exact .inr ⟨rfl, fun c hc => separator?_of_isDigit (hds c hc)⟩
  | fraction hne hds hes =>
    refine .inr ⟨rfl, fun c hc => ?_⟩
    obtain hc | hc := List.mem_append.mp hc
    · exact separator?_of_isDigit (hds c hc)
    · obtain rfl | hc := List.mem_cons.mp hc
      · rfl
      · exact separator?_of_isDigit (hes c hc)
  | name hne hds =>
    refine .inr ⟨rfl, fun c hc => ?_⟩
    obtain rfl | hc := List.mem_cons.mp hc
    · rfl
    · exact separator?_of_isDigit (hds c hc)

/-- What begins with a separator is this separator and nothing more. -/
theorem Spells.eq_of_separator {c : Char} {cs : List Char} {token separator : Token}
    (h : Spells (c :: cs) token) (hc : separator? c = some separator) :
    cs = [] ∧ token = separator := by
  obtain ⟨-, d, hd, htoken⟩ | ⟨-, hnone⟩ := h.separators
  · obtain ⟨rfl, rfl⟩ := List.cons.inj hd
    exact ⟨rfl, Option.some.inj (htoken.symm.trans hc)⟩
  · exact absurd ((hnone c (List.mem_cons_self ..)).symm.trans hc) (by simp)

/-- What does not begin with a separator is an operand. -/
theorem Spells.isOperand {c : Char} {cs : List Char} {token : Token} (h : Spells (c :: cs) token)
    (hc : separator? c = none) : token.isOperand = true := by
  obtain ⟨-, d, hd, htoken⟩ | ⟨hoperand, -⟩ := h.separators
  · obtain ⟨rfl, -⟩ := List.cons.inj hd
    exact absurd (hc.symm.trans htoken) (by simp)
  · exact hoperand

/-! ### Longest matches -/

/-- What is found is the longest token that the text begins with, with the characters that spell it,
or nothing if the text begins with none. -/
inductive Longest (cs : List Char) : Option (Token × List Char) → Prop
  /-- A token, and no longer one. -/
  | token {token : Token} {word : List Char} (spells : Spells word token) (begins : word <+: cs)
      (longest : ∀ longer other, longer <+: cs → Spells longer other →
        longer.length ≤ word.length) : Longest cs (some (token, word))
  /-- No token. -/
  | nothing (none : ∀ word token, word <+: cs → ¬ Spells word token) : Longest cs .none

theorem Spells.ne_nil {cs : List Char} {token : Token} (h : Spells cs token) : cs ≠ [] := by
  cases h with
  | whole hne => exact hne
  | leftParen | rightParen | operator | fraction | name => simp

/-- A token has a character at least. -/
theorem Longest.length_pos {cs word : List Char} {token : Token}
    (h : Longest cs (some (token, word))) : 0 < word.length := by
  cases h with
  | token spells => exact List.length_pos_iff.mpr spells.ne_nil

end Lexer

/-- A lexer of longest matches. -/
structure Lexer where
  /-- The token that a text begins with, and the characters that spell it. -/
  next? : List Char → Option (Token × List Char)
  /-- There is no longer one. -/
  longest : ∀ cs, Lexer.Longest cs (next? cs)

namespace Lexer

open Decimal (isDigit span_isDigit)

/-- The run that begins at a place, up to the next separator. -/
def runAt (text : List Char) (start : Nat) : List Char :=
  (text.drop start).takeWhile fun c => (separator? c).isNone

/-- The tokens of a text from a position on. If an operand has been read and no separator since then,
the place where it begins is given: another operand must not follow. -/
def tokensFrom (lexer : Lexer) (text : List Char) (operand : Option Nat) (position : Nat) :
    Except Defect (List Token) :=
  if hin : position < text.length then
    let unrecognized := Defect.unrecognized (String.ofList (runAt text (operand.getD position)))
    match hfound : lexer.next? (text.drop position) with
    | none => .error unrecognized
    | some (token, word) =>
      have : text.length - (position + word.length) < text.length - position := by
        have := (hfound ▸ lexer.longest (text.drop position)).length_pos
        omega
      if !token.isOperand then do
        let tokens ← tokensFrom lexer text none (position + word.length)
        return token :: tokens
      else if operand.isNone then do
        let tokens ← tokensFrom lexer text (some position) (position + word.length)
        return token :: tokens
      else .error unrecognized
  else return []
termination_by text.length - position

/-- The tokens of a text, or the run in which a lexer finds that there is something else. -/
def tokens (lexer : Lexer) (text : String) : Except Defect (List Token) :=
  lexer.tokensFrom (condense text) none 0

/-! ### A lexer -/

/-- The longest numeral that a text begins with, empty if there is none. -/
def numeral (cs : List Char) : List Char :=
  let whole := cs.takeWhile isDigit
  match cs.dropWhile isDigit with
  | '.' :: more =>
    let fraction := more.takeWhile isDigit
    if whole.isEmpty && fraction.isEmpty then [] else whole ++ '.' :: fraction
  | _ => whole

/-- The longest name of a variable that a text begins with, empty if there is none. -/
def name : List Char → List Char
  | 'x' :: cs =>
    let digits := cs.takeWhile isDigit
    if digits.isEmpty then [] else 'x' :: digits
  | _ => []

/-- The longest number or variable that a text begins with, empty if there is none. -/
def word (cs : List Char) : List Char :=
  if (name cs).isEmpty then numeral cs else name cs

/-- The longest token that a text begins with: a separator, or else a number or a variable. -/
def first? : List Char → Option (Token × List Char)
  | [] => none
  | c :: cs =>
    match separator? c with
    | some token => some (token, [c])
    | none => (operand? (word (c :: cs))).map (·, word (c :: cs))

theorem isDigit_of_mem_takeWhile {cs : List Char} : ∀ d ∈ cs.takeWhile isDigit, isDigit d = true :=
  List.all_eq_true.mp List.all_takeWhile

/-- The digits that a text begins with are all among its leading digits. -/
theorem length_le_takeWhile {ds : List Char} (hds : ∀ d ∈ ds, isDigit d = true)
    (rest : List Char) : ds.length ≤ ((ds ++ rest).takeWhile isDigit).length := by
  rw [List.takeWhile_append_of_pos hds, List.length_append]
  exact Nat.le_add_right _ _

theorem numeral_begins (cs : List Char) : numeral cs <+: cs := by
  have hsplit := List.takeWhile_append_dropWhile (p := isDigit) (l := cs)
  unfold numeral
  dsimp only
  split
  next more hdrop =>
    split
    · exact List.nil_prefix
    · rw [hdrop] at hsplit
      conv => rhs; rw [← hsplit]
      exact (List.prefix_append_right_inj _).mpr
        (List.cons_prefix_cons.mpr ⟨rfl, List.takeWhile_prefix _⟩)
  next => exact List.takeWhile_prefix _

theorem spells_numeral {cs : List Char} (h : numeral cs ≠ []) :
    ∃ y, Spells (numeral cs) (.number y) := by
  unfold numeral at h ⊢
  dsimp only at h ⊢
  split at h
  · split at h
    · exact absurd rfl h
    next hne =>
      rw [if_neg hne]
      refine ⟨_, .fraction ?_ isDigit_of_mem_takeWhile isDigit_of_mem_takeWhile⟩
      simpa [Decidable.imp_iff_not_or] using hne
  · exact ⟨_, .whole h isDigit_of_mem_takeWhile⟩

/-- A number that a text begins with is not longer than the longest numeral. -/
theorem length_le_numeral {cs : List Char} {y : Float} (h : Spells cs (.number y))
    (rest : List Char) : cs.length ≤ (numeral (cs ++ rest)).length := by
  generalize htoken : Token.number y = token at h
  cases h with
  | whole hne hds =>
    refine Nat.le_trans (length_le_takeWhile hds rest) ?_
    unfold numeral
    dsimp only
    split
    · split
      next hempty => simp_all
      · rw [List.length_append]
        exact Nat.le_add_right _ _
    · exact Nat.le_refl _
  | @fraction ds es hne hds hes =>
    obtain ⟨htake, hdrop⟩ := span_isDigit hds ('.' :: (es ++ rest)) (by simp; decide)
    have hmore := length_le_takeWhile hes rest
    have hpos : ¬ (ds.isEmpty && ((es ++ rest).takeWhile isDigit).isEmpty) = true := by
      intro hempty
      rw [Bool.and_eq_true, List.isEmpty_iff, List.isEmpty_iff] at hempty
      rw [hempty.2] at hmore
      exact hne.elim (absurd hempty.1) (absurd (List.length_eq_zero_iff.mp (Nat.le_zero.mp hmore)))
    have hnumeral : numeral (ds ++ '.' :: (es ++ rest))
        = ds ++ '.' :: (es ++ rest).takeWhile isDigit := by
      simp only [numeral, htake, hdrop, if_neg hpos]
    rw [List.append_assoc, List.cons_append, hnumeral]
    simp only [List.length_append, List.length_cons]
    omega
  | leftParen | rightParen | operator | name => cases htoken

theorem name_begins (cs : List Char) : name cs <+: cs := by
  unfold name
  split
  · dsimp only
    split
    · exact List.nil_prefix
    · exact List.cons_prefix_cons.mpr ⟨rfl, List.takeWhile_prefix _⟩
  · exact List.nil_prefix

theorem spells_name {cs : List Char} (h : name cs ≠ []) :
    Spells (name cs) (.var (String.ofList (name cs))) := by
  unfold name at h ⊢
  split at h
  · dsimp only at h ⊢
    split at h
    · exact absurd rfl h
    next hne =>
      rw [if_neg hne]
      exact .name (by simpa using hne) isDigit_of_mem_takeWhile
  · exact absurd rfl h

/-- A name that a text begins with is not longer than the longest one. -/
theorem length_le_name {cs : List Char} {x : String} (h : Spells cs (.var x)) (rest : List Char) :
    cs.length ≤ (name (cs ++ rest)).length := by
  cases h with
  | @name ds hne hds =>
    have hle := length_le_takeWhile hds rest
    have hpos : ¬ ((ds ++ rest).takeWhile isDigit).isEmpty = true := by
      intro hempty
      rw [List.isEmpty_iff] at hempty
      rw [hempty] at hle
      exact hne (List.length_eq_zero_iff.mp (Nat.le_zero.mp hle))
    rw [List.cons_append, Lexer.name, if_neg hpos]
    exact Nat.succ_le_succ hle

theorem word_begins (cs : List Char) : word cs <+: cs := by
  unfold word
  split
  · exact numeral_begins cs
  · exact name_begins cs

theorem spells_word {cs : List Char} (h : word cs ≠ []) :
    ∃ token, Spells (word cs) token ∧ token.isOperand = true := by
  unfold word at h ⊢
  split at h
  next hname =>
    rw [if_pos hname]
    obtain ⟨y, hy⟩ := spells_numeral h
    exact ⟨.number y, hy, rfl⟩
  next hname =>
    rw [if_neg hname]
    exact ⟨_, spells_name h, rfl⟩

/-- A number or variable that a text begins with is not longer than the longest one. -/
theorem length_le_word {cs : List Char} {token : Token} (h : Spells cs token)
    (hoperand : token.isOperand = true) (rest : List Char) :
    cs.length ≤ (word (cs ++ rest)).length := by
  unfold word
  cases token with
  | number y =>
    have hname : name (cs ++ rest) = [] := by
      unfold name
      split
      next hx =>
        -- what begins with an `x` would be no number
        obtain ⟨c, cs, rfl⟩ := List.exists_cons_of_ne_nil h.ne_nil
        obtain ⟨rfl, -⟩ := List.cons.inj hx
        exact absurd h not_spells_number
      next => rfl
    rw [hname]
    exact length_le_numeral h rest
  | var x =>
    have hle := length_le_name h rest
    rw [if_neg]
    · exact hle
    · intro hempty
      rw [List.isEmpty_iff] at hempty
      rw [hempty] at hle
      exact h.ne_nil (List.length_eq_zero_iff.mp (Nat.le_zero.mp hle))
  | operator | leftParen | rightParen => cases hoperand

/-- **What is found first is the longest match.** -/
theorem longest_first? (cs : List Char) : Longest cs (first? cs) := by
  cases cs with
  | nil =>
    refine .nothing fun begin token hbegin h => ?_
    exact h.ne_nil (List.prefix_nil.mp hbegin)
  | cons c cs =>
    cases hc : separator? c with
    | some separator =>
      simp only [first?, hc]
      refine .token (separator?_eq_some_iff.mp hc).1 (List.prefix_append [c] cs)
        fun longer other hlonger h => ?_
      obtain ⟨d, ds, rfl⟩ := List.exists_cons_of_ne_nil h.ne_nil
      obtain ⟨rfl, -⟩ := List.cons_prefix_cons.mp hlonger
      obtain ⟨rfl, -⟩ := h.eq_of_separator hc
      exact Nat.le_refl _
    | none =>
      have hle : ∀ longer other, longer <+: c :: cs → Spells longer other →
          longer.length ≤ (word (c :: cs)).length := by
        rintro longer other ⟨rest, hrest⟩ h
        rw [← hrest]
        refine length_le_word h ?_ rest
        obtain ⟨d, ds, rfl⟩ := List.exists_cons_of_ne_nil h.ne_nil
        obtain ⟨rfl, -⟩ := List.cons.inj hrest
        exact h.isOperand hc
      simp only [first?, hc]
      by_cases hword : word (c :: cs) = []
      · rw [hword] at hle ⊢
        refine .nothing fun begin token hbegin h => ?_
        exact h.ne_nil (List.length_eq_zero_iff.mp (Nat.le_zero.mp (hle begin token hbegin h)))
      · obtain ⟨token, htoken, hoperand⟩ := spells_word hword
        rw [operand?_eq_some_iff.mpr ⟨htoken, hoperand⟩]
        exact .token htoken (word_begins _) hle

/-- The lexer that looks for a separator, then for a name and then for a numeral. -/
def greedy : Lexer := ⟨first?, longest_first?⟩

end Lexer

end Downhill
