import Downhill.Formula.Lexer
import Mathlib.Data.List.Forall2

/-!
# Longest matches make whole runs

A lexer finds one token behind the other and knows nothing of runs. It may find two tokens in a run,
or a token and then nothing. Still it reads a text as `scan` does, run by run.

The proof goes along the pieces of the text. At a separator the longest match is the separator. At a
run it cannot reach beyond the run, as no operand has a separator in it. If it is the whole run, what
comes next is a separator. If it is less, then the run is no operand, as that would have been a longer
match; and whatever is found next, the run is the defect.

What is proved: every lexer of longest matches reads as `scan` does (`Lexer.tokens_eq_scan`), and so
the tokens of a text are those of the pieces it falls into, one for each (`Lexer.tokens_of_pieces`).
-/

namespace Downhill

open Lexer (Spells separator?_eq_some_iff operand?_eq_some_iff)

/-! ### Pieces -/

/-- The characters at which a text is cut. -/
def separators : List Char := ['(', ')', '+', '-', '*', '/', '^']

theorem mem_separators_iff {c : Char} : c ∈ separators ↔ ∃ token, separator? c = some token := by
  constructor
  · intro h
    simp only [separators, List.mem_cons, List.not_mem_nil, or_false] at h
    obtain rfl | rfl | rfl | rfl | rfl | rfl | rfl := h <;> exact ⟨_, rfl⟩
  · rintro ⟨token, h⟩
    unfold separator? at h
    split at h
    · decide
    · decide
    · obtain ⟨op, hop, -⟩ := Option.map_eq_some_iff.mp h
      rw [Operator.ofSymbol?_eq_some_iff.mp hop]
      cases op <;> decide

theorem not_mem_separators_iff {c : Char} : c ∉ separators ↔ separator? c = none := by
  rw [mem_separators_iff, Option.eq_none_iff_forall_ne_some, not_exists]

/-- The text falls into the pieces: a separator is a piece by itself, and so are all characters
between two separators, if there are any. -/
inductive Cut : List Char → List Piece → Prop
  /-- There is nothing to cut. -/
  | nil : Cut [] []
  /-- A separator. -/
  | separator {c : Char} {token : Token} {cs : List Char} {pieces : List Piece}
      (hc : c ∈ separators) (spells : Spells [c] token) (rest : Cut cs pieces) :
      Cut (c :: cs) (.separator token :: pieces)
  /-- What stands before the next separator. -/
  | run {chars cs : List Char} {pieces : List Piece} (hne : chars ≠ [])
      (hchars : ∀ c ∈ chars, c ∉ separators) (ends : ∀ c ∈ cs.head?, c ∈ separators)
      (rest : Cut cs pieces) : Cut (chars ++ cs) (.run chars :: pieces)

theorem cut_separator {c : Char} {token : Token} (hc : separator? c = some token)
    (cs : List Char) : cut (c :: cs) = .separator token :: cut cs := by
  simp only [cut, hc]

/-- A run is one piece if a separator or nothing follows. -/
theorem cut_run {chars cs : List Char} (hne : chars ≠ []) (hchars : ∀ c ∈ chars, c ∉ separators)
    (ends : ∀ c ∈ cs.head?, c ∈ separators) : cut (chars ++ cs) = .run chars :: cut cs := by
  induction chars with
  | nil => exact absurd rfl hne
  | cons c chars ih =>
    have hc := not_mem_separators_iff.mp (hchars c List.mem_cons_self)
    cases chars with
    | nil =>
      cases cs with
      | nil => simp [cut, hc]
      | cons d cs =>
        obtain ⟨token, hd⟩ := mem_separators_iff.mp (ends d rfl)
        simp [cut, hc, hd]
    | cons d chars =>
      have ih := ih (by simp) fun e he => hchars e (List.mem_cons_of_mem _ he)
      rw [List.cons_append, cut]
      simp only [hc, ih]

/-- **A text falls into its pieces in one way.** -/
theorem cut_iff {cs : List Char} {pieces : List Piece} : Cut cs pieces ↔ cut cs = pieces := by
  constructor
  · intro h
    induction h with
    | nil => rfl
    | separator hc spells rest ih =>
      obtain ⟨token, htoken⟩ := mem_separators_iff.mp hc
      rw [cut_separator htoken, ih, (spells.eq_of_separator htoken).2]
    | run hne hchars ends rest ih => rw [cut_run hne hchars ends, ih]
  · rintro rfl
    induction cs with
    | nil => exact .nil
    | cons c cs ih =>
      cases hc : separator? c with
      | some token =>
        rw [cut_separator hc]
        exact .separator (mem_separators_iff.mpr ⟨token, hc⟩) (separator?_eq_some_iff.mp hc).1 ih
      | none =>
        have hc' := not_mem_separators_iff.mpr hc
        simp only [cut, hc]
        generalize cut cs = pieces at ih
        -- the character joins the run behind it, if there is one
        cases ih with
        | nil => exact .run (List.cons_ne_nil c []) (by simpa) (by simp) .nil
        | separator hd spells rest =>
          exact .run (List.cons_ne_nil c []) (by simpa) (by simpa) (.separator hd spells rest)
        | run hne hchars ends rest =>
          exact .run (List.cons_ne_nil c _) (List.forall_mem_cons.mpr ⟨hc', hchars⟩) ends rest

/-! ### The tokens of pieces -/

/-- A separator is the token it stands for. A run is a number or a variable. -/
inductive Piece.Reads : Piece → Token → Prop
  /-- A separator. -/
  | separator (token : Token) : Reads (.separator token) token
  /-- A run that is a numeral is the number nearest to it. -/
  | number {chars : List Char} {y : Float} (spells : Spells chars (.number y)) :
      Reads (.run chars) (.number y)
  /-- A run that is a name is the variable of this name. -/
  | var {chars : List Char} {x : String} (spells : Spells chars (.var x)) :
      Reads (.run chars) (.var x)

theorem Piece.reads_run_iff {chars : List Char} {token : Token} :
    (run chars).Reads token ↔ Spells chars token ∧ token.isOperand = true := by
  constructor
  · intro h
    cases h with
    | number spells => exact ⟨spells, rfl⟩
    | var spells => exact ⟨spells, rfl⟩
  · rintro ⟨spells, hoperand⟩
    cases token with
    | number y => exact .number spells
    | var x => exact .var spells
    | operator | leftParen | rightParen => cases hoperand

theorem Piece.token_eq_ok_iff {piece : Piece} {token : Token} :
    piece.token = .ok token ↔ piece.Reads token := by
  cases piece with
  | separator separator =>
    rw [Piece.token, Except.ok.injEq]
    constructor
    · rintro rfl
      exact .separator _
    · intro h
      cases h
      rfl
  | run chars =>
    rw [Piece.reads_run_iff, ← operand?_eq_some_iff, Piece.token]
    cases operand? chars <;> simp

theorem Piece.token_eq_error_iff {piece : Piece} {defect : Defect} :
    piece.token = .error defect ↔ ∃ chars, piece = .run chars
      ∧ (∀ token, ¬ piece.Reads token) ∧ defect = .unrecognized (String.ofList chars) := by
  simp only [← Piece.token_eq_ok_iff]
  cases piece with
  | separator token => simp [Piece.token]
  | run chars =>
    rw [Piece.token]
    cases operand? chars <;> simp [eq_comm]

/-- What succeeds for every entry does so entry by entry. -/
theorem mapM_eq_ok_iff {α β ε : Type} {f : α → Except ε β} {xs : List α} {ys : List β} :
    xs.mapM f = .ok ys ↔ List.Forall₂ (fun x y => f x = .ok y) xs ys := by
  induction xs generalizing ys with
  | nil => cases ys <;> simp [pure, Except.pure]
  | cons x xs ih =>
    rw [List.mapM_cons]
    cases hx : f x with
    | error e => cases ys <;> simp [bind, Except.bind, hx]
    | ok y =>
      cases hxs : xs.mapM f with
      | error e => cases ys <;> simp [bind, Except.bind, ← ih, hx, hxs]
      | ok zs => cases ys <;> simp [bind, Except.bind, pure, Except.pure, ← ih, hx, hxs]

/-- The tokens of a text are read from its pieces. -/
theorem scan_eq_ok_iff {text : String} {tokens : List Token} :
    scan text = .ok tokens ↔ List.Forall₂ Piece.Reads (cut (condense text)) tokens := by
  simp only [scan, mapM_eq_ok_iff, Piece.token_eq_ok_iff]

/-- A list with a first entry is split at this one or at one of the others. -/
theorem exists_split_cons {α : Type} {x : α} {xs : List α} {P : List α → α → Prop} :
    (∃ before a after, x :: xs = before ++ a :: after ∧ P before a) ↔
      P [] x ∨ ∃ before a after, xs = before ++ a :: after ∧ P (x :: before) a := by
  constructor
  · rintro ⟨before, a, after, hsplit, h⟩
    cases before with
    | nil =>
      obtain ⟨rfl, rfl⟩ := List.cons.inj hsplit
      exact .inl h
    | cons b before =>
      obtain ⟨rfl, rfl⟩ := List.cons.inj hsplit
      exact .inr ⟨before, a, after, rfl, h⟩
  · rintro (h | ⟨before, a, after, rfl, h⟩)
    · exact ⟨[], x, xs, rfl, h⟩
    · exact ⟨x :: before, a, after, rfl, h⟩

/-- What fails fails for the leftmost entry for which it can. -/
theorem mapM_eq_error_iff {α β ε : Type} {f : α → Except ε β} {xs : List α} {e : ε} :
    xs.mapM f = .error e ↔ ∃ before x after, xs = before ++ x :: after
      ∧ (∀ b ∈ before, ∃ y, f b = .ok y) ∧ f x = .error e := by
  induction xs with
  | nil => simp [pure, Except.pure]
  | cons x xs ih =>
    rw [List.mapM_cons, exists_split_cons]
    cases hx : f x with
    | error e' => simp [bind, Except.bind, hx]
    | ok y =>
      have hrest : (do let ys ← xs.mapM f; pure (y :: ys)) = .error e ↔ xs.mapM f = .error e := by
        cases xs.mapM f <;> simp [bind, Except.bind, pure, Except.pure]
      simp only [bind, Except.bind] at hrest ⊢
      rw [hrest, ih]
      simp [hx]

/-- A run in front that spells no token is the defect. -/
theorem Piece.mapM_token_of_not_spells {chars : List Char} {pieces : List Piece}
    (hnone : ∀ token, ¬ Spells chars token) :
    (run chars :: pieces).mapM token = .error (.unrecognized (String.ofList chars)) := by
  have hpiece := token_eq_error_iff.mpr
    ⟨chars, rfl, fun token h => hnone token (reads_run_iff.mp h).1, rfl⟩
  rw [List.mapM_cons, hpiece]
  rfl

/-- Pieces can all be read if the runs among them are operands. -/
theorem Piece.exists_reads_iff {pieces : List Piece} :
    (∃ tokens, List.Forall₂ Piece.Reads pieces tokens) ↔ ∀ chars, run chars ∈ pieces →
      (∃ y, Spells chars (.number y)) ∨ ∃ x, Spells chars (.var x) := by
  constructor
  · rintro ⟨tokens, h⟩ chars hchars
    induction h with
    | nil => cases hchars
    | cons hpiece _ ih =>
      obtain rfl | hchars := List.mem_cons.mp hchars
      · cases hpiece with
        | number spells => exact .inl ⟨_, spells⟩
        | var spells => exact .inr ⟨_, spells⟩
      · exact ih hchars
  · intro h
    induction pieces with
    | nil => exact ⟨[], .nil⟩
    | cons piece pieces ih =>
      obtain ⟨tokens, htokens⟩ := ih fun chars hchars => h chars (List.mem_cons_of_mem _ hchars)
      cases piece with
      | separator token => exact ⟨token :: tokens, .cons (.separator token) htokens⟩
      | run chars =>
        obtain ⟨y, hy⟩ | ⟨x, hx⟩ := h chars List.mem_cons_self
        · exact ⟨_, .cons (.number hy) htokens⟩
        · exact ⟨_, .cons (.var hx) htokens⟩

/-! ### What a lexer finds -/

namespace Lexer

variable {lexer : Lexer}

/-- At a separator it finds the separator. -/
theorem next?_separator {c : Char} {separator : Token} (hc : separator? c = some separator)
    (cs : List Char) : lexer.next? (c :: cs) = some (separator, [c]) := by
  have hlongest := lexer.longest (c :: cs)
  cases hfound : lexer.next? (c :: cs) with
  | none =>
    rw [hfound] at hlongest
    cases hlongest with
    | nothing hnone =>
      exact absurd (separator?_eq_some_iff.mp hc).1 (hnone [c] _ (List.prefix_append [c] cs))
  | some found =>
    obtain ⟨token, word⟩ := found
    rw [hfound] at hlongest
    obtain ⟨spells, begins, -⟩ := hlongest
    obtain ⟨d, ds, rfl⟩ := List.exists_cons_of_ne_nil spells.ne_nil
    obtain ⟨rfl, -⟩ := List.cons_prefix_cons.mp begins
    obtain ⟨rfl, rfl⟩ := spells.eq_of_separator hc
    rfl

/-- What a text begins with ends where its run does, if no separator is in it. -/
theorem begins_within_run {chars cs word : List Char} (begins : word <+: chars ++ cs)
    (hword : ∀ c ∈ word, separator? c = none) (ends : ∀ c ∈ cs.head?, c ∈ separators) :
    word <+: chars := by
  obtain hle | ⟨more, rfl⟩ :=
    List.prefix_or_prefix_of_prefix begins (List.prefix_append chars cs)
  · exact hle
  cases more with
  | nil => simp
  | cons d more =>
    -- the separator behind the run would be in it
    obtain ⟨rest, hrest⟩ := (List.prefix_append_right_inj _).mp begins
    have hd := hword d (List.mem_append_right _ List.mem_cons_self)
    exact absurd (ends d (by simp [← hrest])) (not_mem_separators_iff.mpr hd)

/-- At a run it finds an operand in the run, or nothing. If it is not the whole run, then the run is
none. -/
theorem next?_run (lexer : Lexer) {chars cs : List Char} (hne : chars ≠ [])
    (hchars : ∀ c ∈ chars, c ∉ separators) (ends : ∀ c ∈ cs.head?, c ∈ separators) :
    (lexer.next? (chars ++ cs) = none ∧ ∀ token, ¬ Spells chars token)
      ∨ ∃ token word rest, lexer.next? (chars ++ cs) = some (token, word) ∧ chars = word ++ rest
        ∧ Spells word token ∧ token.isOperand = true
        ∧ (rest ≠ [] → ∀ token, ¬ Spells chars token) := by
  have hlongest := lexer.longest (chars ++ cs)
  cases hfound : lexer.next? (chars ++ cs) with
  | none =>
    rw [hfound] at hlongest
    cases hlongest with
    | nothing hnone =>
      exact .inl ⟨rfl, fun token => hnone chars token (List.prefix_append chars cs)⟩
  | some found =>
    obtain ⟨token, word⟩ := found
    rw [hfound] at hlongest
    obtain ⟨spells, begins, longest⟩ := hlongest
    have hoperand : token.isOperand = true ∧ ∀ c ∈ word, separator? c = none := by
      obtain ⟨-, d, rfl, hd⟩ | hoperand := spells.separators
      · obtain ⟨c, chars, rfl⟩ := List.exists_cons_of_ne_nil hne
        obtain ⟨rfl, -⟩ := List.cons_prefix_cons.mp begins
        exact absurd (mem_separators_iff.mpr ⟨token, hd⟩) (hchars d List.mem_cons_self)
      · exact hoperand
    obtain ⟨rest, rfl⟩ := begins_within_run begins hoperand.2 ends
    refine .inr ⟨token, word, rest, rfl, rfl, spells, hoperand.1, fun hrest token htoken => ?_⟩
    have hle := longest _ token (List.prefix_append (word ++ rest) cs) htoken
    have := List.length_pos_iff.mpr hrest
    rw [List.length_append] at hle
    omega

/-! ### What a lexer makes of a text -/

section Steps

variable {text : List Char} {operand : Option Nat} {position : Nat}

theorem tokensFrom_of_length_le (h : text.length ≤ position) :
    lexer.tokensFrom text operand position = .ok [] := by
  rw [tokensFrom, dif_neg (by omega)]
  rfl

/-- A separator is a token wherever it stands. -/
theorem tokensFrom_separator {token : Token} {word : List Char} (hin : position < text.length)
    (hfound : lexer.next? (text.drop position) = some (token, word))
    (htoken : token.isOperand = false) :
    lexer.tokensFrom text operand position
      = (lexer.tokensFrom text none (position + word.length)).map (token :: ·) := by
  rw [tokensFrom, dif_pos hin]
  split
  next hnone => cases hnone.symm.trans hfound
  next hsome =>
    cases hsome.symm.trans hfound
    simp only [htoken]
    rfl

/-- The first operand behind a separator is a token. -/
theorem tokensFrom_operand {token : Token} {word : List Char} (hin : position < text.length)
    (hfound : lexer.next? (text.drop position) = some (token, word))
    (htoken : token.isOperand = true) :
    lexer.tokensFrom text none position
      = (lexer.tokensFrom text (some position) (position + word.length)).map (token :: ·) := by
  rw [tokensFrom, dif_pos hin]
  split
  next hnone => cases hnone.symm.trans hfound
  next hsome =>
    cases hsome.symm.trans hfound
    simp only [htoken]
    rfl

/-- Nothing that is found but a separator can follow an operand. -/
theorem tokensFrom_second {start : Nat} (hin : position < text.length)
    (hseparator : ∀ token word, lexer.next? (text.drop position) = some (token, word) →
      token.isOperand = true) :
    lexer.tokensFrom text (some start) position
      = .error (.unrecognized (String.ofList (runAt text start))) := by
  rw [tokensFrom, dif_pos hin]
  split
  next => rfl
  next token word hsome =>
    simp only [hseparator token word hsome]
    rfl

/-- Where nothing is found there is no token. -/
theorem tokensFrom_nothing (hin : position < text.length)
    (hnone : lexer.next? (text.drop position) = none) :
    lexer.tokensFrom text none position
      = .error (.unrecognized (String.ofList (runAt text position))) := by
  rw [tokensFrom, dif_pos hin]
  split
  next => rfl
  next hsome => cases hnone.symm.trans hsome

/-- Where a separator or nothing follows, what has been read before does not matter. -/
theorem tokensFrom_ends {start : Nat}
    (ends : ∀ c ∈ (text.drop position).head?, c ∈ separators) :
    lexer.tokensFrom text (some start) position = lexer.tokensFrom text none position := by
  by_cases hin : position < text.length
  · obtain ⟨c, cs, hrest⟩ := List.exists_cons_of_length_pos (l := text.drop position)
      (by rw [List.length_drop]; omega)
    rw [hrest] at ends
    obtain ⟨token, hc⟩ := mem_separators_iff.mp (ends c rfl)
    have hfound : lexer.next? (text.drop position) = some (token, [c]) := by
      rw [hrest]
      exact next?_separator hc cs
    have htoken := (separator?_eq_some_iff.mp hc).2
    rw [tokensFrom_separator hin hfound htoken, tokensFrom_separator hin hfound htoken]
  · rw [tokensFrom_of_length_le (by omega), tokensFrom_of_length_le (by omega)]

theorem runAt_eq {chars cs : List Char} (hrest : text.drop position = chars ++ cs)
    (hchars : ∀ c ∈ chars, c ∉ separators) (ends : ∀ c ∈ cs.head?, c ∈ separators) :
    runAt text position = chars := by
  have hall : ∀ c ∈ chars, (separator? c).isNone = true := fun c hc =>
    Option.isNone_iff_eq_none.mpr (not_mem_separators_iff.mp (hchars c hc))
  rw [runAt, hrest, List.takeWhile_append_of_pos hall]
  cases cs with
  | nil => simp
  | cons c cs =>
    obtain ⟨token, hc⟩ := mem_separators_iff.mp (ends c rfl)
    simp [hc]

theorem lt_length_of_drop {cs : List Char} (hrest : text.drop position = cs) (hne : cs ≠ []) :
    position < text.length :=
  Nat.lt_of_not_le fun hle => hne (hrest ▸ List.drop_eq_nil_iff.mpr hle)

theorem drop_add_length {chars cs : List Char} (hrest : text.drop position = chars ++ cs) :
    text.drop (position + chars.length) = cs := by
  rw [← List.drop_drop, hrest, List.drop_left]

/-- From a position where a piece begins the tokens are those of the pieces. -/
theorem tokensFrom_of_cut {pieces : List Piece} (h : Cut (text.drop position) pieces) :
    lexer.tokensFrom text none position = pieces.mapM Piece.token := by
  generalize hrest : text.drop position = rest at h
  induction h generalizing position with
  | nil => exact tokensFrom_of_length_le (List.drop_eq_nil_iff.mp hrest)
  | @separator c token cs pieces hc spells _ ih =>
    obtain ⟨separator, hseparator⟩ := mem_separators_iff.mp hc
    obtain ⟨-, rfl⟩ := spells.eq_of_separator hseparator
    rw [tokensFrom_separator (lt_length_of_drop hrest (by simp))
      (hrest ▸ next?_separator hseparator cs) (separator?_eq_some_iff.mp hseparator).2,
      ih (drop_add_length hrest), List.mapM_cons]
    rfl
  | @run chars cs pieces hne hchars ends _ ih =>
    have hin := lt_length_of_drop hrest (by simp [hne])
    have hrun := runAt_eq hrest hchars ends
    obtain ⟨hfound, hnone⟩ | ⟨token, word, rest, hfound, rfl, spells, hoperand, hnone⟩ :=
      lexer.next?_run hne hchars ends
    · rw [tokensFrom_nothing hin (hrest ▸ hfound), hrun, Piece.mapM_token_of_not_spells hnone]
    · rw [tokensFrom_operand hin (hrest ▸ hfound) hoperand]
      cases rest with
      | nil =>
        -- the run is an operand as a whole, and a piece begins behind it
        rw [List.append_nil] at hrest
        have hpiece := Piece.token_eq_ok_iff.mpr (Piece.reads_run_iff.mpr ⟨spells, hoperand⟩)
        rw [tokensFrom_ends (drop_add_length hrest ▸ ends), ih (drop_add_length hrest),
          List.mapM_cons, List.append_nil, hpiece]
        rfl
      | cons d rest =>
        -- more of the run is left, and what is found in it is no separator
        rw [List.append_assoc] at hrest
        have hmore := drop_add_length hrest
        rw [tokensFrom_second (lt_length_of_drop hmore (by simp)), hrun,
          Piece.mapM_token_of_not_spells (hnone (by simp))]
        · rfl
        · intro other longer hother
          rw [hmore] at hother
          obtain ⟨hnothing, -⟩ | ⟨_, _, _, hsome, -, -, hsecond, -⟩ :=
            lexer.next?_run (by simp)
              (fun c hc => hchars c (List.mem_append_right word hc)) ends
          · cases hnothing.symm.trans hother
          · cases hsome.symm.trans hother
            exact hsecond

end Steps

/-- **Longest matches make whole runs.** Every lexer of longest matches reads a text as one that
looks for the separators first. -/
theorem tokens_eq_scan (lexer : Lexer) (text : String) : lexer.tokens text = scan text :=
  tokensFrom_of_cut (cut_iff.mpr rfl)

/-- **The tokens of a text are those of its pieces.** Every text falls into pieces in one way. It has
tokens if each run in it is a number or a variable, and then there is one for each piece, in their
order. Otherwise the defect is the leftmost run that is neither. -/
theorem tokens_of_pieces (lexer : Lexer) (text : String) :
    ∃ pieces, (∀ other, Cut (condense text) other ↔ other = pieces)
      ∧ ((∃ tokens, lexer.tokens text = .ok tokens) ↔
          ∀ chars, .run chars ∈ pieces → (∃ y, Spells chars (.number y)) ∨ ∃ x, Spells chars (.var x))
      ∧ (∀ tokens, lexer.tokens text = .ok tokens ↔ List.Forall₂ Piece.Reads pieces tokens)
      ∧ ∀ defect, lexer.tokens text = .error defect ↔
          ∃ before chars after, pieces = before ++ .run chars :: after
            ∧ (∀ piece ∈ before, ∃ token, piece.Reads token)
            ∧ (∀ token, ¬ (Piece.run chars).Reads token)
            ∧ defect = .unrecognized (String.ofList chars) := by
  have hok : ∀ tokens, lexer.tokens text = .ok tokens ↔
      List.Forall₂ Piece.Reads (cut (condense text)) tokens := by
    intro tokens
    simp only [tokens_eq_scan, scan, mapM_eq_ok_iff, Piece.token_eq_ok_iff]
  refine ⟨cut (condense text), fun other => cut_iff.trans eq_comm, ?_, hok, fun defect => ?_⟩
  · simp only [hok, Piece.exists_reads_iff]
  · simp only [tokens_eq_scan, scan, mapM_eq_error_iff, Piece.token_eq_ok_iff,
      Piece.token_eq_error_iff]
    constructor
    · rintro ⟨before, _, after, hsplit, hbefore, chars, rfl, hnone, hdefect⟩
      exact ⟨before, chars, after, hsplit, hbefore, hnone, hdefect⟩
    · rintro ⟨before, chars, after, hsplit, hbefore, hnone, hdefect⟩
      exact ⟨before, _, after, hsplit, hbefore, chars, rfl, hnone, hdefect⟩

/-- In `x1*1.2.3+x1.5` neither `1.2.3` nor `x1.5` is cut further: the first one is the defect. -/
theorem tokens_of_pieces_greedy :
    greedy.tokens "x1*1.2.3+x1.5" = .error (.unrecognized "1.2.3") ∧
      greedy.tokens "x1*1.2" = .ok [.var "x1", .operator .mul, .number 1.2] := by
  have hname : (Piece.run ['x', '1']).Reads (.var "x1") := Piece.token_eq_ok_iff.mp rfl
  have hnumber : (Piece.run ['1', '.', '2']).Reads (.number 1.2) :=
    .number (readNumeral?_eq_some_iff.mp (by decide +kernel))
  have hnone : ∀ token, ¬ (Piece.run ['1', '.', '2', '.', '3']).Reads token := by
    obtain ⟨_, -, hnone, -⟩ := Piece.token_eq_error_iff.mp
      (show (Piece.run ['1', '.', '2', '.', '3']).token = .error (.unrecognized "1.2.3") from rfl)
    exact hnone
  constructor
  · obtain ⟨pieces, hpieces, -, -, hdefect⟩ := tokens_of_pieces greedy "x1*1.2.3+x1.5"
    obtain rfl : [.run ['x', '1'], .separator (.operator .mul), .run ['1', '.', '2', '.', '3'],
        .separator (.operator .add), .run ['x', '1', '.', '5']] = pieces :=
      (hpieces _).mp (cut_iff.mpr rfl)
    refine (hdefect _).mpr ⟨[.run ['x', '1'], .separator (.operator .mul)], _, _, rfl, ?_, hnone, rfl⟩
    exact List.forall_mem_cons.mpr ⟨⟨_, hname⟩, List.forall_mem_singleton.mpr ⟨_, .separator _⟩⟩
  · obtain ⟨pieces, hpieces, -, htokens, -⟩ := tokens_of_pieces greedy "x1*1.2"
    obtain rfl : [.run ['x', '1'], .separator (.operator .mul), .run ['1', '.', '2']] = pieces :=
      (hpieces _).mp (cut_iff.mpr rfl)
    exact (htokens _).mpr (.cons hname (.cons (.separator _) (.cons hnumber .nil)))

end Lexer

end Downhill
