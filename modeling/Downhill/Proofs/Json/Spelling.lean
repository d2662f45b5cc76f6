import Downhill.Proofs.Json.Numeral

/-!
# How lexemes are spelled

The lexical grammar of JSON texts. A string may be written in many ways: most of its characters stand
for themselves, some have a short escape, and all may be written by their UTF-16 units. Between lexemes
there may be white space, and between two of them there has to be some only behind a number that would
go on.

What is proved: a text that spells lexemes has these lexemes, and whatever follows has its own
(`lexemes_of_spells`), and a string as it is written spells the string (`spells_quote`).
-/

namespace Downhill.Json

/-! ### Strings -/

/-- The text of a piece of a string. -/
inductive SpellsPiece : List Char → Piece → Prop
  /-- A character that stands for itself. -/
  | char {c : Char} (hquote : c ≠ '"') (hescape : c ≠ '\\') (hcontrol : 0x20 ≤ c.toNat) :
      SpellsPiece [c] (.char c)
  /-- A short escape. -/
  | short {c e : Char} (h : shortEscape? e = some c) : SpellsPiece ['\\', e] (.char c)
  /-- A unit by its hexadecimal digits. -/
  | unit {a b c d : Char} {n : Nat} (h : unit? a b c d = some n) :
      SpellsPiece ['\\', 'u', a, b, c, d] (.unit n)

/-- The text of the pieces of a string, one after the other. -/
inductive SpellsPieces : List Char → List Piece → Prop
  | nil : SpellsPieces [] []
  | cons {text rest : List Char} {p : Piece} {ps : List Piece} (h : SpellsPiece text p)
      (hrest : SpellsPieces rest ps) : SpellsPieces (text ++ rest) (p :: ps)

/-- A piece is read whatever follows it. -/
theorem body_of_spellsPiece {text : List Char} {p : Piece} (h : SpellsPiece text p)
    (rest : List Char) : body (text ++ rest) = (body rest).cons p := by
  cases h with
  | @char c hquote hescape hcontrol =>
    have hplain : body (c :: rest) = if c.toNat < 0x20 then ⟨[], .error .malformed⟩
        else (body rest).cons (.char c) := by
      rw [body]
      all_goals simp [hquote, hescape]
    exact hplain.trans (if_neg (Nat.not_lt.mpr hcontrol))
  | @short c e h =>
    have hu : e ≠ 'u' := by
      rintro rfl
      cases h
    rw [List.cons_append, List.singleton_append, body, h]
    · exact fun _ _ _ _ _ he => absurd he hu
    · exact hu
  | unit h =>
    simp only [List.cons_append, List.nil_append, body, h]

/-- **Pieces are read up to the closing quote.** -/
theorem body_of_spellsPieces {text : List Char} {ps : List Piece} (h : SpellsPieces text ps)
    (rest : List Char) : body (text ++ '"' :: rest) = ⟨ps, .ok rest⟩ := by
  induction h with
  | nil => rw [List.nil_append, body]
  | cons h _ ih => rw [List.append_assoc, body_of_spellsPiece h, ih, Body.cons]

/-! ### Written strings -/

/-- The piece that a character is written as. -/
def pieceOf (c : Char) : Piece :=
  if c.toNat < 0x20 ∧ c ∉ ['\x08', '\x0c', '\n', '\r', '\t'] then .unit c.toNat else .char c

/-- What is written for a character spells its piece. -/
theorem spellsPiece_escapeChar (c : Char) : SpellsPiece (escapeChar c) (pieceOf c) := by
  unfold escapeChar
  split
  any_goals exact .short rfl
  · next hquote hescape h8 hc hn hr ht =>
    split
    · next hcontrol =>
      have hpiece : pieceOf c = .unit c.toNat := by
        refine if_pos ⟨hcontrol, ?_⟩
        simpa using ⟨h8, hc, hn, hr, ht⟩
      have hdigits : ∀ n < 0x20,
          unit? '0' '0' (hexDigit (n / 16)) (hexDigit (n % 16)) = some n := by decide
      rw [hpiece]
      exact .unit (hdigits _ hcontrol)
    · next hcontrol =>
      have hpiece : pieceOf c = .char c := if_neg fun h => hcontrol h.1
      rw [hpiece]
      exact .char hquote hescape (Nat.not_lt.mp hcontrol)

theorem spellsPieces_flatMap (cs : List Char) :
    SpellsPieces (cs.flatMap escapeChar) (cs.map pieceOf) := by
  induction cs with
  | nil => exact .nil
  | cons c cs ih =>
    rw [List.flatMap_cons, List.map_cons]
    exact .cons (spellsPiece_escapeChar c) ih

/-- A unit that is a character by itself joins as that character. -/
theorem join_unit {n : Nat} (hlow : isLow n = false) (hhigh : isHigh n = false) (ps : List Piece) :
    join (.unit n :: ps) = (join ps).cons (Char.ofNat n) := by
  match ps with
  | [] => simp [join, hlow, hhigh, Joined.cons]
  | .unit m :: ps => simp [join, hlow, hhigh]
  | .char c :: ps => simp [join, hlow, hhigh]

/-- **The pieces of a written string join to the string.** -/
theorem join_map_pieceOf (cs : List Char) : join (cs.map pieceOf) = .text cs := by
  induction cs with
  | nil => rfl
  | cons c cs ih =>
    rw [List.map_cons]
    by_cases h : c.toNat < 0x20 ∧ c ∉ ['\x08', '\x0c', '\n', '\r', '\t']
    · have hlow : isLow c.toNat = false := by
        simp only [isLow, Bool.and_eq_false_iff, decide_eq_false_iff_not]
        omega
      have hhigh : isHigh c.toNat = false := by
        simp only [isHigh, Bool.and_eq_false_iff, decide_eq_false_iff_not]
        omega
      rw [pieceOf, if_pos h, join_unit hlow hhigh, ih, Joined.cons, Char.ofNat_toNat]
    · rw [pieceOf, if_neg h, join, ih, Joined.cons]

/-! ### Lexemes -/

/-- White space. -/
def IsBlank (cs : List Char) : Prop := ∀ c ∈ cs, isSpace c = true

/-- The text of a lexeme. -/
inductive Spells : List Char → Lexeme → Prop
  | openBrace : Spells ['\x7b'] .openBrace
  | closeBrace : Spells ['\x7d'] .closeBrace
  | openBracket : Spells ['['] .openBracket
  | closeBracket : Spells [']'] .closeBracket
  | colon : Spells [':'] .colon
  | comma : Spells [','] .comma
  | null : Spells ['n', 'u', 'l', 'l'] .null
  | isTrue : Spells ['t', 'r', 'u', 'e'] (.bool true)
  | isFalse : Spells ['f', 'a', 'l', 's', 'e'] (.bool false)
  | number {text : List Char} {n : Numeral} (h : SpellsNumeral text n) :
      Spells text (.number n.value?)
  | string {text : List Char} {ps : List Piece} (h : SpellsPieces text ps) :
      Spells ('"' :: (text ++ ['"'])) (.string (joined? ps))

/-- A lexeme that goes on as long as it can. -/
def Lexeme.IsNumber (x : Lexeme) : Prop := ∃ n, x = .number n

/-- The text of lexemes one after the other, with white space between them. -/
inductive SpellsAll : List Char → List Lexeme → Prop
  /-- Nothing but white space. -/
  | nil {blank : List Char} (h : IsBlank blank) : SpellsAll blank []
  /-- One more lexeme in front. -/
  | cons {blank text rest : List Char} {x : Lexeme} {xs : List Lexeme} (hblank : IsBlank blank)
      (h : Spells text x) (hdetached : x.IsNumber → Detached rest) (hrest : SpellsAll rest xs) :
      SpellsAll (blank ++ (text ++ rest)) (x :: xs)

/-- A lexeme is scanned as it is spelled. -/
theorem scanLexeme_of_spells {text : List Char} {x : Lexeme} (h : Spells text x) {rest : List Char}
    (hrest : x.IsNumber → Detached rest) :
    ∃ c cs, text = c :: cs ∧ isSpace c = false ∧ scanLexeme c (cs ++ rest) = ⟨x, rest⟩ := by
  cases h with
  | number h => exact scanLexeme_of_spellsNumeral (hrest ⟨_, rfl⟩) h
  | @string text ps h =>
    refine ⟨'"', text ++ ['"'], rfl, by decide, ?_⟩
    rw [List.append_assoc, List.singleton_append]
    simp only [scanLexeme, scanString, body_of_spellsPieces h]
  | _ => exact ⟨_, _, rfl, by decide, rfl⟩

theorem Spells.ne_nil {text : List Char} {x : Lexeme} (h : Spells text x) : text ≠ [] := by
  have hdetached : x.IsNumber → Detached [] := fun _ => detached_nil
  obtain ⟨c, cs, rfl, -⟩ := scanLexeme_of_spells h hdetached
  exact List.cons_ne_nil c cs

/-- No lexeme is spelled by nothing. -/
theorem SpellsAll.eq_nil {text : List Char} {xs : List Lexeme} (h : SpellsAll text xs)
    (htext : text = []) : xs = [] := by
  cases h with
  | nil => rfl
  | cons hblank h =>
    rw [List.append_eq_nil_iff, List.append_eq_nil_iff] at htext
    exact absurd htext.2.1 h.ne_nil

theorem Detached.append {cs rest : List Char} (h : Detached cs) (hrest : cs = [] → Detached rest) :
    Detached (cs ++ rest) := by
  cases cs with
  | nil => exact hrest rfl
  | cons c cs => exact detached_cons.mpr (detached_cons.mp h)

theorem lexemes_blank {blank : List Char} (h : IsBlank blank) (cs : List Char) :
    lexemes (blank ++ cs) = lexemes cs := by
  induction blank with
  | nil => rfl
  | cons c blank ih =>
    rw [List.cons_append, lexemes, if_pos (h c List.mem_cons_self)]
    exact ih fun d hd => h d (List.mem_cons_of_mem _ hd)

/-- What follows lexemes does not continue the last of them. -/
def Ends (xs : List Lexeme) (rest : List Char) : Prop :=
  ∀ x ∈ xs.getLast?, x.IsNumber → Detached rest

theorem Ends.of_detached {xs : List Lexeme} {rest : List Char} (h : Detached rest) : Ends xs rest :=
  fun _ _ _ => h

theorem Ends.tail {x : Lexeme} {xs : List Lexeme} {rest : List Char} (h : Ends (x :: xs) rest) :
    Ends xs rest := by
  intro y hy
  obtain ⟨ys, rfl⟩ := List.getLast?_eq_some_iff.mp hy
  exact h y (List.getLast?_concat (l := x :: ys))

/-- What follows the rest of the lexemes does not continue the first one either. -/
theorem Ends.detached {x : Lexeme} {xs : List Lexeme} {after rest : List Char}
    (h : Ends (x :: xs) rest) (hdetached : x.IsNumber → Detached after) (hafter : SpellsAll after xs) :
    x.IsNumber → Detached (after ++ rest) := by
  intro hx
  refine (hdetached hx).append fun hnil => ?_
  rw [hafter.eq_nil hnil] at h
  exact h x rfl hx

/-- **A text that spells lexemes has these lexemes**, and what follows has its own. -/
theorem lexemes_of_spells {text : List Char} {xs : List Lexeme} (h : SpellsAll text xs)
    {rest : List Char} (hrest : Ends xs rest) : lexemes (text ++ rest) = xs ++ lexemes rest := by
  induction h with
  | nil h => exact lexemes_blank h rest
  | @cons blank text after x xs hblank h hdetached hafter ih =>
    obtain ⟨c, cs, rfl, hspace, hscan⟩ :=
      scanLexeme_of_spells h (hrest.detached hdetached hafter)
    rw [List.append_assoc, lexemes_blank hblank, List.append_assoc, List.cons_append, lexemes, hscan,
      ih hrest.tail]
    exact if_neg (by simp [hspace])

/-- Lexemes behind one another are spelled behind one another. -/
theorem SpellsAll.append {text after : List Char} {xs ys : List Lexeme} (h : SpellsAll text xs)
    (hafter : SpellsAll after ys) (hends : Ends xs after) : SpellsAll (text ++ after) (xs ++ ys) := by
  induction h with
  | nil h =>
    cases hafter with
    | nil hblank => exact .nil fun c hc => (List.mem_append.mp hc).elim (h c) (hblank c)
    | cons hblank hx hdetached hrest =>
      rw [← List.append_assoc]
      exact .cons (fun c hc => (List.mem_append.mp hc).elim (h c) (hblank c)) hx hdetached hrest
  | cons hblank hx hdetached hrest ih =>
    rw [List.append_assoc, List.append_assoc]
    exact .cons hblank hx (hends.detached hdetached hrest) (ih hends.tail)

theorem SpellsAll.of_spells {text : List Char} {x : Lexeme} (h : Spells text x) :
    SpellsAll text [x] := by
  have hall : SpellsAll ([] ++ (text ++ [])) [x] :=
    .cons (fun _ hc => by cases hc) h (fun _ => detached_nil) (.nil fun _ hc => by cases hc)
  rwa [List.append_nil] at hall

/-- **A string as it is written spells the string.** -/
theorem spells_quote (s : String) : Spells (quote s) (.string (some s)) := by
  have hjoined : joined? (s.toList.map pieceOf) = some s := by
    rw [joined?, join_map_pieceOf]
    exact congrArg some String.ofList_toList
  rw [← hjoined]
  exact .string (spellsPieces_flatMap s.toList)

end Downhill.Json
