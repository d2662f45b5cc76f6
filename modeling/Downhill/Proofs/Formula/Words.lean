import Downhill.Proofs.Decimal.Layout
import Downhill.Proofs.Decimal.Shortest
import Downhill.Proofs.Formula.Equality

/-!
# Formulas read back word by word

A formula is shown as its tokens in reverse Polish order, with single spaces between. That is no
formula, but each of its words is one token, and read alone it is that token again: a name is shown
as it is spelled, an operator as its sign, and a number as its shortest decimal, which is a numeral
and rounds to the number.

What is proved: the words of a formula whose numbers are finite are read as its tokens, and so two
such formulas that are shown alike are the same (`Formula.words_read_back`).
-/

namespace Downhill

open Float.Model UnpackedFloat
open Lexer (Spells)
open Decimal (isDigit natOfDigits natOfDigits_append decimalValue pointText Layout)

/-! ### The characters of tokens -/

/-- The characters that tokens are spelled with. -/
def alphabet : List Char :=
  separators ++ ['.', 'x', '0', '1', '2', '3', '4', '5', '6', '7', '8', '9']

theorem mem_alphabet_of_isDigit {c : Char} (h : isDigit c = true) : c ∈ alphabet := by
  have hbounds : 48 ≤ c.toNat ∧ c.toNat ≤ 57 := by
    simpa [isDigit, Char.le_def, UInt32.le_iff_toNat_le] using h
  rw [← Char.ofNat_toNat c]
  generalize c.toNat = n at hbounds
  obtain ⟨hlow, hhigh⟩ := hbounds
  interval_cases n <;> decide

theorem mem_alphabet_of_spells {cs : List Char} {token : Token} (h : Spells cs token) :
    ∀ c ∈ cs, c ∈ alphabet := by
  cases h with
  | leftParen | rightParen => simp [alphabet, separators]
  | operator op => cases op <;> simp [alphabet, separators, Operator.symbol]
  | whole hne hds => exact fun c hc => mem_alphabet_of_isDigit (hds c hc)
  | fraction hne hds hes =>
    intro c hc
    obtain hc | hc := List.mem_append.mp hc
    · exact mem_alphabet_of_isDigit (hds c hc)
    obtain rfl | hc := List.mem_cons.mp hc
    · simp [alphabet]
    · exact mem_alphabet_of_isDigit (hes c hc)
  | name hne hds =>
    intro c hc
    obtain rfl | hc := List.mem_cons.mp hc
    · simp [alphabet]
    · exact mem_alphabet_of_isDigit (hds c hc)

/-- None of them is blank or a capital. -/
theorem stays_of_mem_alphabet {c : Char} (h : c ∈ alphabet) :
    (!Text.isBlank c) = true ∧ Text.lowercase c = [c] := by
  have hall : (alphabet.all fun c => !Text.isBlank c && Text.lowercase c == [c]) = true := by
    decide
  simpa using List.all_eq_true.mp hall c h

theorem condense_of_alphabet {cs : List Char} (h : ∀ c ∈ cs, c ∈ alphabet) :
    condense (String.ofList cs) = cs := by
  rw [condense, String.toList_ofList,
    List.filter_eq_self.mpr fun c hc => (stays_of_mem_alphabet (h c hc)).1]
  induction cs with
  | nil => rfl
  | cons c cs ih =>
    rw [List.forall_mem_cons] at h
    rw [List.flatMap_cons, (stays_of_mem_alphabet h.1).2, ih h.2]
    rfl

/-! ### One word -/

section Word

variable {cs : List Char} {token : Token}

/-- What spells a token falls into one piece. -/
theorem exists_cut_of_spells (h : Spells cs token) :
    ∃ piece, Cut cs [piece] ∧ piece.Reads token := by
  obtain ⟨-, c, rfl, hc⟩ | ⟨hoperand, hnone⟩ := h.separators
  · exact ⟨.separator token, .separator (mem_separators_iff.mpr ⟨token, hc⟩) h .nil,
      .separator token⟩
  · have hrun := Cut.run h.ne_nil (fun c hc => not_mem_separators_iff.mpr (hnone c hc)) (by simp) .nil
    rw [List.append_nil] at hrun
    exact ⟨.run cs, hrun, Piece.reads_run_iff.mpr ⟨h, hoperand⟩⟩

/-- **What spells a token is read as this token alone.** -/
theorem scan_of_spells (h : Spells cs token) : scan (String.ofList cs) = .ok [token] := by
  obtain ⟨piece, hcut, hreads⟩ := exists_cut_of_spells h
  rw [scan_eq_ok_iff, condense_of_alphabet (mem_alphabet_of_spells h), cut_iff.mp hcut]
  exact .cons hreads .nil

end Word

/-! ### Numbers -/

section Number

variable {m : ℕ} {e : ℤ} {hpos : 0 < m} {x : Float}

/-- **Digits with a point among them spell the double that they round to.** -/
theorem spells_of_roundsTo (hx : x.toModel.unpack = .finite .positive m e hpos)
    {whole fraction : List Char} (hne : whole ≠ []) (hwhole : ∀ c ∈ whole, isDigit c = true)
    (hfraction : ∀ c ∈ fraction, isDigit c = true)
    (hr : RoundsTo (decimalValue whole fraction 0) m e) :
    Spells (whole ++ pointText fraction) (.number x) := by
  rw [decimalValue, ← natOfDigits_append, zero_sub] at hr
  have hread : Float.ofScientific (natOfDigits 0 (whole ++ fraction)) true fraction.length = x :=
    ofScientific_eq hx hr
  rw [← hread]
  cases fraction with
  | nil =>
    rw [pointText, List.append_nil]
    exact .whole hne hwhole
  | cons c cs => exact .fraction (.inl hne) hwhole hfraction

/-- **A finite double without a sign is shown as a numeral for it.** -/
theorem spells_plain (hx : x.isFinite = true) (hu : Unsigned x.toModel.unpack) :
    Spells (Decimal.plain x).toList (.number x) := by
  obtain (rfl | rfl) | ⟨s, m, e, hpos, hunpack⟩ := zero_or_finite_of_isFinite hx
  · have htext : (Decimal.plain 0).toList = ['0'] := by decide +kernel
    rw [htext]
    exact .whole (by simp) (by simp; decide)
  -- the other zero has a sign
  · cases hu
  · rw [hunpack] at hu
    obtain rfl : s = .positive := hu
    have hsigned : Decimal.isSigned x = false := by
      rw [← Bool.not_eq_true, Decimal.isSigned_iff hunpack]
      exact Sign.noConfusion
    obtain ⟨d, k, hshortest, hd, hr⟩ := Decimal.exists_shortest_ofFloat hunpack .up
    obtain ⟨whole, fraction, htext, hwhole, hfraction, -, hvalue⟩ :=
      Decimal.exists_positionalText false (k := k) fun hzero => absurd hzero hd.ne'
    have hshown : (Decimal.plain x).toList = whole ++ pointText fraction := by
      rw [Decimal.plain, Layout.toList_write _ hx, hsigned, ← htext, ← Layout.text_plain,
        ← hshortest]
      rfl
    rw [← hvalue] at hr
    rw [hshown]
    exact spells_of_roundsTo hunpack hwhole.1.1 hwhole.1.2 hfraction hr

end Number

/-! ### Tokens -/

/-- **A token of a text is shown as it could be spelled**, if it is no infinite number. -/
theorem Token.spells_text {token : Token} (h : ∃ word, Spells word token)
    (hfinite : ∀ y, token = .number y → y.isFinite = true) :
    Spells token.text.toList token := by
  obtain ⟨word, h⟩ := h
  cases token with
  | number y => exact spells_plain (hfinite y rfl) h.unsigned
  | var x =>
    cases h with
    | name hne hds =>
      rw [Token.text, String.toList_ofList]
      exact .name hne hds
  | operator op =>
    rw [Token.text, Char.toString, String.toList_singleton]
    exact .operator op
  | leftParen => exact .leftParen
  | rightParen => exact .rightParen

/-- An infinite number is shown as a word that is no token. -/
example : scan (Token.number infinity).text = .error (.unrecognized "inf") := rfl

/-! ### Formulas -/

/-- The words of a text, which is cut at each space. Between two spaces side by side there is an empty
word. -/
def words (text : String) : List String := (text.split ' ').toList.map (·.copy)

example : words "5  x1" = ["5", "", "x1"] := by cbv

/-- Words without a space in them are found again. -/
theorem words_intercalate {xs : List String} (hne : xs ≠ []) (h : ∀ x ∈ xs, ' ' ∉ x.toList) :
    words (" ".intercalate xs) = xs :=
  (String.toList_split_intercalate h).trans (if_neg hne)

namespace Formula

variable {a b : String} {f g : Formula}

/-- The numbers of the formula are finite. -/
def HasFiniteNumbers (f : Formula) : Prop := ∀ y, .number y ∈ f.program → y.isFinite = true

theorem program_ne_nil (hf : ofText a = .ok f) : f.program ≠ [] := by
  obtain ⟨tokens, -, ht⟩ := exists_scan_of_ofText hf
  obtain ⟨t, -, rfl⟩ := exists_parse_of_ofTokens ht
  cases t <;> simp [Tree.listing]

theorem spells_of_mem_program (hf : ofText a = .ok f) (hfinite : f.HasFiniteNumbers) :
    ∀ token ∈ f.program, Spells token.text.toList token := by
  intro token htoken
  refine Token.spells_text (exists_spells_of_mem_program hf token htoken) ?_
  rintro y rfl
  exact hfinite y htoken

/-- The words of a formula are its tokens, one by one. -/
theorem words_text (hf : ofText a = .ok f) (hfinite : f.HasFiniteNumbers) :
    words f.text = f.program.map Token.text := by
  refine words_intercalate (by simpa using program_ne_nil hf) ?_
  intro word hword hspace
  obtain ⟨token, htoken, rfl⟩ := List.mem_map.mp hword
  have hmem := mem_alphabet_of_spells (spells_of_mem_program hf hfinite token htoken) _ hspace
  exact absurd hmem (by decide)

/-- Each of them is read as its token. -/
theorem map_scan_words (hf : ofText a = .ok f) (hfinite : f.HasFiniteNumbers) :
    (words f.text).map scan = f.program.map fun token => .ok [token] := by
  rw [words_text hf hfinite, List.map_map]
  refine List.map_congr_left fun token htoken => ?_
  have hscan := scan_of_spells (spells_of_mem_program hf hfinite token htoken)
  rwa [String.ofList_toList] at hscan

/-- **A formula is read back word by word.** If its numbers are finite it is shown in as many words
as it has tokens, each word is read as the token in its place, and no other formula of a text is
shown alike. -/
theorem words_read_back (hf : ofText a = .ok f) (hfinite : f.HasFiniteNumbers) :
    (words f.text).length = f.program.length ∧
      (∀ lexer : Lexer, (words f.text).map lexer.tokens = f.program.map fun token => .ok [token]) ∧
      ∀ b g, ofText b = .ok g → g.HasFiniteNumbers → g.text = f.text → g = f := by
  refine ⟨?_, fun lexer => ?_, fun b g hg hgfinite htext => ?_⟩
  · rw [words_text hf hfinite, List.length_map]
  · rw [show lexer.tokens = scan from funext lexer.tokens_eq_scan]
    exact map_scan_words hf hfinite
  · -- the words of the one text are read as the tokens of both formulas
    have hread := map_scan_words hg hgfinite
    rw [htext, map_scan_words hf hfinite] at hread
    have hinj : Function.Injective fun token : Token => (.ok [token] : Except Defect (List Token)) :=
      fun _ _ h => List.singleton_injective (Except.ok.inj h)
    exact eq_of_program_eq hg hf (List.map_injective_iff.mpr hinj hread.symm)

/-- The formula `5*x1^0.1`. -/
def tenthRoot : Formula :=
  ⟨[.number 5, .var "x1", .number 0.1, .operator .pow, .operator .mul], ⟨["x1"]⟩⟩

theorem ofText_tenthRoot : ofText "5.*X1^.10" = .ok tenthRoot := by
  have hcut : cut (condense "5.*X1^.10") = [.run ['5', '.'], .separator (.operator .mul),
    .run ['x', '1'], .separator (.operator .pow), .run ['.', '1', '0']] := rfl
  have hfive : Decimal.readNumeral? ['5', '.'] = some 5 := by decide +kernel
  have htenth : Decimal.readNumeral? ['.', '1', '0'] = some 0.1 := by decide +kernel
  have hscan : scan "5.*X1^.10" =
      .ok [.number 5, .operator .mul, .var "x1", .operator .pow, .number 0.1] := by
    rw [scan, hcut]
    simp [Piece.token, operand?, isVariableName, hfive, htenth]
    rfl
  rw [ofText_of_scan hscan]
  rfl

/-- It is shown as `5 x1 0.1 ^ *`, and so is no other formula. -/
theorem words_read_back_tenthRoot :
    ofText "5.*X1^.10" = .ok tenthRoot ∧ tenthRoot.HasFiniteNumbers ∧
      words tenthRoot.text = ["5", "x1", "0.1", "^", "*"] ∧
      ["5", "x1", "0.1", "^", "*"].map Lexer.greedy.tokens =
        tenthRoot.program.map (fun token => .ok [token]) ∧
      ∀ b g, ofText b = .ok g → g.HasFiniteNumbers → g.text = tenthRoot.text → g = tenthRoot := by
  have hfinite : tenthRoot.HasFiniteNumbers := by
    intro y hy
    simp [tenthRoot] at hy
    obtain rfl | rfl := hy <;> decide +kernel
  have hwords : words tenthRoot.text = ["5", "x1", "0.1", "^", "*"] := by
    rw [words_text ofText_tenthRoot hfinite]
    decide +kernel
  obtain ⟨-, hread, halike⟩ := words_read_back ofText_tenthRoot hfinite
  exact ⟨ofText_tenthRoot, hfinite, hwords, hwords ▸ hread Lexer.greedy, halike⟩

end Formula

end Downhill
