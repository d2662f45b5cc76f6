import Downhill.Json.Lexeme
import Mathlib.Data.List.TakeWhile

/-!
# How numbers are spelled

The grammar of numbers in JSON texts: a minus sign or none, digits without a needless zero in front, a
fraction or none, an exponent or none. A number goes on as long as it can, so that it is one lexeme only
where nothing follows that would continue it (`Detached`).

What is proved: the lexer reads a number exactly where one is spelled (`scanLexeme_of_spellsNumeral`,
`exists_spellsNumeral_of_scanLexeme`), and integers are spelled by their decimal digits
(`spellsNumeral_int`).
-/

namespace Downhill.Json

open Decimal (isDigit natOfDigits span_isDigit)

/-! ### The grammar -/

/-- Digits, one at least. -/
def AreDigits (ds : List Char) : Prop := ds ≠ [] ∧ ∀ d ∈ ds, isDigit d = true

/-- The digits before a point: digits of which the first is zero only if it stands alone. -/
def IsWhole (ds : List Char) : Prop := AreDigits ds ∧ ∀ rest, ds = '0' :: rest → rest = []

/-- The text of a fraction with its digits. -/
inductive SpellsFraction : List Char → List Char → Prop
  /-- There is none. -/
  | none : SpellsFraction [] []
  /-- A point and digits. -/
  | digits {ds : List Char} (h : AreDigits ds) : SpellsFraction ('.' :: ds) ds

/-- The letter before an exponent. -/
def IsMark (c : Char) : Prop := c = 'e' ∨ c = 'E'

/-- The text of an exponent with its value. -/
inductive SpellsExponent : List Char → Option Int → Prop
  /-- There is none. -/
  | none : SpellsExponent [] .none
  /-- No sign. -/
  | unsigned {c : Char} {ds : List Char} (hc : IsMark c) (h : AreDigits ds) :
      SpellsExponent (c :: ds) (some (natOfDigits 0 ds))
  /-- A plus sign. -/
  | plus {c : Char} {ds : List Char} (hc : IsMark c) (h : AreDigits ds) :
      SpellsExponent (c :: '+' :: ds) (some (natOfDigits 0 ds))
  /-- A minus sign. -/
  | minus {c : Char} {ds : List Char} (hc : IsMark c) (h : AreDigits ds) :
      SpellsExponent (c :: '-' :: ds) (some (-natOfDigits 0 ds))

/-- The text of a number without its sign. -/
inductive SpellsUnsigned (negative : Bool) : List Char → Numeral → Prop
  | mk {ds fractionText fraction exponentText : List Char} {exponent : Option Int}
      (whole : IsWhole ds) (hfraction : SpellsFraction fractionText fraction)
      (hexponent : SpellsExponent exponentText exponent) :
      SpellsUnsigned negative (ds ++ (fractionText ++ exponentText))
        ⟨negative, ds, fraction, exponent⟩

/-- The text of a number. -/
inductive SpellsNumeral : List Char → Numeral → Prop
  /-- No sign. -/
  | plain {text : List Char} {n : Numeral} (h : SpellsUnsigned false text n) : SpellsNumeral text n
  /-- A minus sign. -/
  | minus {text : List Char} {n : Numeral} (h : SpellsUnsigned true text n) :
      SpellsNumeral ('-' :: text) n

/-- The character may continue a number. -/
def Continues (c : Char) : Prop := isDigit c = true ∨ c = '.' ∨ IsMark c

/-- The text does not continue a number that stands before it. -/
def Detached (cs : List Char) : Prop := ∀ c ∈ cs.head?, ¬ Continues c

theorem detached_nil : Detached [] := by
  intro c hc
  cases hc

theorem detached_cons {c : Char} {cs : List Char} : Detached (c :: cs) ↔ ¬ Continues c :=
  ⟨fun h => h c rfl, fun h d hd => by
    obtain rfl : c = d := Option.some.inj hd
    exact h⟩

/-! ### Digits -/

theorem isDigit_of_isDigit {c : Char} (h : c.isDigit = true) : isDigit c = true := by
  simpa [Char.isDigit, isDigit, Char.le_def, UInt32.le_iff_toNat_le] using h

theorem areDigits_digits (n : Nat) : AreDigits (Nat.toDigits 10 n) :=
  ⟨Nat.toDigits_ne_nil, fun _ hd =>
    isDigit_of_isDigit (Nat.isDigit_of_mem_toDigits (by decide) (by decide) hd)⟩

theorem natOfDigits_digits (n : Nat) : natOfDigits 0 (Nat.toDigits 10 n) = n :=
  Nat.ofDigitChars_ten_toDigits

/-- Only zero has digits that begin with zero. -/
theorem eq_zero_of_digits_eq {n : Nat} {rest : List Char} (h : Nat.toDigits 10 n = '0' :: rest) :
    n = 0 := by
  induction n using Nat.strongRecOn generalizing rest with
  | ind n ih =>
    rcases Nat.lt_or_ge n 10 with hlt | hge
    · rw [Nat.toDigits_of_lt_base hlt] at h
      have hdigit : ∀ m < 10, Nat.digitChar m = '0' → m = 0 := by decide
      exact hdigit n hlt (List.cons.inj h).1
    · rw [Nat.toDigits_of_base_le (by decide) hge] at h
      obtain ⟨d, ds, hd⟩ := List.exists_cons_of_ne_nil (Nat.toDigits_ne_nil (n := n / 10) (b := 10))
      rw [hd, List.cons_append] at h
      have hzero := ih (n / 10) (by omega) (hd.trans (by rw [(List.cons.inj h).1]))
      omega

theorem isWhole_digits (n : Nat) : IsWhole (Nat.toDigits 10 n) := by
  refine ⟨areDigits_digits n, fun rest h => ?_⟩
  rw [eq_zero_of_digits_eq h, Nat.toDigits_zero] at h
  exact (List.cons.inj h).2.symm

theorem Detached.not_digit {cs : List Char} (h : Detached cs) : ∀ c ∈ cs.head?, isDigit c = false := by
  intro c hc
  have hnot := h c hc
  rw [Continues, not_or] at hnot
  exact eq_false_of_ne_true hnot.1

theorem not_isDigit_of_isMark {c : Char} (h : IsMark c) : isDigit c = false := by
  rcases h with rfl | rfl <;> decide

theorem AreDigits.ne_sign {c : Char} {ds : List Char} (h : AreDigits (c :: ds)) :
    c ≠ '+' ∧ c ≠ '-' := by
  have hc := h.2 c List.mem_cons_self
  constructor <;> rintro rfl <;> exact absurd hc (by decide)

/-- A lexeme that begins with a digit is a number. -/
theorem scanLexeme_of_isDigit {c : Char} (hc : isDigit c = true) (cs : List Char) :
    isSpace c = false ∧ scanLexeme c cs = scanNumber false c cs := by
  have hne (d : Char) (hd : isDigit d = false) : c ≠ d := by
    rintro rfl
    rw [hc] at hd
    cases hd
  refine ⟨?_, ?_⟩
  · simp [isSpace, hne ' ' (by decide), hne '\n' (by decide), hne '\t' (by decide),
      hne '\r' (by decide)]
  · rw [scanLexeme, if_pos hc]
    all_goals exact hne _ (by decide)

/-! ### From the grammar to the lexer -/

section Complete

variable {rest : List Char} (hrest : Detached rest)
include hrest

theorem scanExponentDigits_of_areDigits {ds : List Char} (h : AreDigits ds) (n : Numeral) (sign : Int) :
    scanExponentDigits n sign (ds ++ rest) =
      ⟨.number { n with exponent := some (sign * natOfDigits 0 ds) }.value?, rest⟩ := by
  obtain ⟨htake, hdrop⟩ := span_isDigit h.2 _ hrest.not_digit
  rw [scanExponentDigits, htake, hdrop]
  exact if_neg (by simp [h.1])

theorem scanExponent_of_spells {text : List Char} {exponent : Option Int}
    (h : SpellsExponent text exponent) {n : Numeral} (hn : n.exponent = none) :
    scanExponent n (text ++ rest) = ⟨.number { n with exponent := exponent }.value?, rest⟩ := by
  have hmark {c : Char} (hc : IsMark c) : (decide (c = 'e') || decide (c = 'E')) = true := by
    rcases hc with rfl | rfl <;> rfl
  cases h with
  | none =>
    obtain ⟨negative, whole, fraction, exponent⟩ := n
    obtain rfl : exponent = none := hn
    cases rest with
    | nil => rfl
    | cons c rest =>
      have hc := detached_cons.mp hrest
      rw [Continues, not_or, not_or, IsMark] at hc
      exact if_neg (by simpa using hc.2.2)
  | @unsigned c ds hc h =>
    obtain ⟨d, ds, rfl⟩ := List.exists_cons_of_ne_nil h.1
    obtain ⟨hplus, hminus⟩ := h.ne_sign
    have hdigits := scanExponentDigits_of_areDigits hrest h n 1
    rw [Int.one_mul] at hdigits
    rw [List.cons_append, scanExponent, if_pos (hmark hc), ← hdigits]
    · exact fun _ heq => hplus (List.cons.inj heq).1
    · exact fun _ heq => hminus (List.cons.inj heq).1
  | plus hc h =>
    have hdigits := scanExponentDigits_of_areDigits hrest h n 1
    rw [Int.one_mul] at hdigits
    exact (if_pos (hmark hc)).trans hdigits
  | minus hc h =>
    have hdigits := scanExponentDigits_of_areDigits hrest h n (-1)
    rw [Int.neg_one_mul] at hdigits
    exact (if_pos (hmark hc)).trans hdigits

/-- What stands behind the digits before a point does not begin with a digit. -/
theorem SpellsExponent.not_digit {text : List Char} {exponent : Option Int}
    (h : SpellsExponent text exponent) : ∀ c ∈ (text ++ rest).head?, isDigit c = false := by
  cases h with
  | none => exact hrest.not_digit
  | unsigned hc _ | plus hc _ | minus hc _ =>
    intro c hd
    obtain rfl := Option.some.inj hd
    exact not_isDigit_of_isMark hc

theorem scanFraction_of_spells {fractionText fraction exponentText : List Char}
    {exponent : Option Int} (hf : SpellsFraction fractionText fraction)
    (he : SpellsExponent exponentText exponent) {n : Numeral} (hfraction : n.fraction = [])
    (hn : n.exponent = none) :
    scanFraction n (fractionText ++ exponentText ++ rest) =
      ⟨.number { n with fraction := fraction, exponent := exponent }.value?, rest⟩ := by
  cases hf with
  | none =>
    have hexponent := scanExponent_of_spells hrest he hn
    rw [List.nil_append, scanFraction, hexponent]
    · obtain ⟨negative, whole, fraction, exponent⟩ := n
      obtain rfl : fraction = [] := hfraction
      rfl
    -- what stands there is no point
    · intro cs hcs
      cases he with
      | none =>
        have hpoint : rest = '.' :: cs := hcs
        rw [hpoint] at hrest
        exact detached_cons.mp hrest (.inr (.inl rfl))
      | unsigned hc _ | plus hc _ | minus hc _ =>
        have hpoint := (List.cons.inj hcs).1
        rcases hc with rfl | rfl <;> exact absurd hpoint (by decide)
  | digits h =>
    have hexponent := scanExponent_of_spells hrest he (n := { n with fraction := fraction }) hn
    obtain ⟨htake, hdrop⟩ := span_isDigit h.2 _ (he.not_digit hrest)
    rw [List.cons_append, List.cons_append, List.append_assoc, scanFraction, htake, hdrop, hexponent]
    exact if_neg (by simp [h.1])

/-- A text that begins with a whole part is scanned as a number. -/
theorem scanNumber_of_spells {c : Char} {cs : List Char} {negative : Bool} {n : Numeral}
    (h : SpellsUnsigned negative (c :: cs) n) :
    scanNumber negative c (cs ++ rest) = ⟨.number n.value?, rest⟩ := by
  generalize htext : c :: cs = text at h
  cases h with
  | @mk ds fractionText fraction exponentText exponent whole hf he =>
    obtain ⟨d, ds, rfl⟩ := List.exists_cons_of_ne_nil whole.1.1
    obtain ⟨rfl, rfl⟩ := List.cons.inj (htext.trans (List.cons_append ..))
    have hds : ∀ d ∈ ds, isDigit d = true := fun d hd => whole.1.2 d (List.mem_cons_of_mem _ hd)
    -- behind the whole part there is no further digit
    have hnext : ∀ d ∈ (fractionText ++ exponentText ++ rest).head?, isDigit d = false := by
      cases hf with
      | none => exact he.not_digit hrest
      | digits h =>
        intro d hd
        obtain rfl := Option.some.inj hd
        decide
    obtain ⟨htake, hdrop⟩ := span_isDigit hds _ hnext
    have hzero : (decide (c = '0') && !ds.isEmpty) = false := by
      by_cases hc : c = '0'
      · rw [whole.2 ds (by rw [hc])]
        simp
      · simp [hc]
    rw [List.append_assoc, scanNumber, htake, hdrop]
    simp only [hzero, Bool.false_eq_true, if_false]
    exact scanFraction_of_spells hrest hf he rfl rfl

/-- **A number that is spelled is scanned.** -/
theorem scanLexeme_of_spellsNumeral {text : List Char} {n : Numeral} (h : SpellsNumeral text n) :
    ∃ c cs, text = c :: cs ∧ isSpace c = false ∧
      scanLexeme c (cs ++ rest) = ⟨.number n.value?, rest⟩ := by
  have hdigit {negative : Bool} {text : List Char} (h : SpellsUnsigned negative text n) :
      ∃ c cs, text = c :: cs ∧ isDigit c = true := by
    cases h with
    | mk whole hf he =>
      obtain ⟨d, ds, rfl⟩ := List.exists_cons_of_ne_nil whole.1.1
      exact ⟨d, _, List.cons_append .., whole.1.2 d List.mem_cons_self⟩
  cases h with
  | plain h =>
    obtain ⟨c, cs, rfl, hc⟩ := hdigit h
    rw [← scanNumber_of_spells hrest h]
    exact ⟨c, cs, rfl, (scanLexeme_of_isDigit hc (cs ++ rest)).1,
      (scanLexeme_of_isDigit hc (cs ++ rest)).2⟩
  | minus h =>
    obtain ⟨c, cs, rfl, hc⟩ := hdigit h
    refine ⟨'-', c :: cs, rfl, by decide, ?_⟩
    have hscan := scanNumber_of_spells hrest h
    rw [← hscan]
    exact if_pos hc

end Complete

/-! ### From the lexer to the grammar -/

section Sound

variable {v : Option Number} {cs rest : List Char}

/-- Digits that are taken off, if there are any. -/
theorem areDigits_takeWhile (h : (cs.takeWhile isDigit).isEmpty = false) :
    AreDigits (cs.takeWhile isDigit) :=
  ⟨by simpa using h, fun _ hd => List.mem_takeWhile_imp hd⟩

theorem exists_of_scanExponentDigits {n : Numeral} {sign : Int}
    (h : scanExponentDigits n sign cs = ⟨.number v, rest⟩) :
    ∃ ds, cs = ds ++ rest ∧ AreDigits ds ∧
      v = { n with exponent := some (sign * natOfDigits 0 ds) }.value? := by
  rw [scanExponentDigits] at h
  cases hds : (cs.takeWhile isDigit).isEmpty with
  | true =>
    simp only [hds, if_true] at h
    cases h
  | false =>
    simp only [hds, Bool.false_eq_true, if_false, Scanned.mk.injEq, Lexeme.number.injEq] at h
    obtain ⟨rfl, rfl⟩ := h
    exact ⟨_, List.takeWhile_append_dropWhile.symm, areDigits_takeWhile hds, rfl⟩

theorem exists_of_scanExponent {n : Numeral} (hn : n.exponent = none)
    (h : scanExponent n cs = ⟨.number v, rest⟩) :
    ∃ text exponent, cs = text ++ rest ∧ SpellsExponent text exponent ∧
      v = { n with exponent := exponent }.value? := by
  have hnone : { n with exponent := none } = n := by
    obtain ⟨negative, whole, fraction, exponent⟩ := n
    obtain rfl : exponent = none := hn
    rfl
  unfold scanExponent at h
  split at h
  · next c cs =>
    split at h
    · next hmark =>
      have hc : IsMark c := by simpa [IsMark] using hmark
      split at h
      · obtain ⟨ds, rfl, hds, rfl⟩ := exists_of_scanExponentDigits h
        exact ⟨_, _, rfl, .plus hc hds, by rw [Int.one_mul]⟩
      · obtain ⟨ds, rfl, hds, rfl⟩ := exists_of_scanExponentDigits h
        exact ⟨_, _, rfl, .minus hc hds, by rw [Int.neg_one_mul]⟩
      · obtain ⟨ds, rfl, hds, rfl⟩ := exists_of_scanExponentDigits h
        exact ⟨_, _, rfl, .unsigned hc hds, by rw [Int.one_mul]⟩
    · simp only [Scanned.mk.injEq, Lexeme.number.injEq] at h
      obtain ⟨rfl, rfl⟩ := h
      exact ⟨[], none, rfl, .none, by rw [hnone]⟩
  · simp only [Scanned.mk.injEq, Lexeme.number.injEq] at h
    obtain ⟨rfl, rfl⟩ := h
    exact ⟨[], none, rfl, .none, by rw [hnone]⟩

theorem exists_of_scanFraction {n : Numeral} (hf : n.fraction = []) (hn : n.exponent = none)
    (h : scanFraction n cs = ⟨.number v, rest⟩) :
    ∃ fractionText fraction exponentText exponent, cs = fractionText ++ exponentText ++ rest ∧
      SpellsFraction fractionText fraction ∧ SpellsExponent exponentText exponent ∧
      v = { n with fraction := fraction, exponent := exponent }.value? := by
  unfold scanFraction at h
  split at h
  · next cs =>
    cases hds : (cs.takeWhile isDigit).isEmpty with
    | true =>
      simp only [hds, if_true] at h
      cases h
    | false =>
      simp only [hds, Bool.false_eq_true, if_false] at h
      obtain ⟨text, exponent, hrest, he, rfl⟩ :=
        exists_of_scanExponent (n := { n with fraction := cs.takeWhile isDigit }) hn h
      refine ⟨_, _, text, exponent, ?_, .digits (areDigits_takeWhile hds), he, rfl⟩
      rw [List.cons_append, List.cons_append, List.append_assoc, ← hrest,
        List.takeWhile_append_dropWhile]
  · obtain ⟨text, exponent, rfl, he, rfl⟩ := exists_of_scanExponent hn h
    refine ⟨[], [], text, exponent, rfl, .none, he, ?_⟩
    obtain ⟨negative, whole, fraction, exponent⟩ := n
    obtain rfl : fraction = [] := hf
    rfl

theorem exists_of_scanNumber {negative : Bool} {c : Char} (hc : isDigit c = true)
    (h : scanNumber negative c cs = ⟨.number v, rest⟩) :
    ∃ text n, c :: cs = text ++ rest ∧ SpellsUnsigned negative text n ∧ v = n.value? := by
  rw [scanNumber] at h
  cases hzero : (decide (c = '0') && !(cs.takeWhile isDigit).isEmpty) with
  | true =>
    simp only [hzero, if_true] at h
    cases h
  | false =>
    simp only [hzero, Bool.false_eq_true, if_false] at h
    obtain ⟨fractionText, fraction, exponentText, exponent, hrest, hf, he, rfl⟩ :=
      exists_of_scanFraction (n := ⟨negative, c :: cs.takeWhile isDigit, [], none⟩) rfl rfl h
    have hwhole : IsWhole (c :: cs.takeWhile isDigit) := by
      refine ⟨⟨List.cons_ne_nil _ _, fun d hd => ?_⟩, fun ds hds => ?_⟩
      · rcases List.mem_cons.mp hd with rfl | hd
        · exact hc
        · exact List.mem_takeWhile_imp hd
      · obtain ⟨rfl, rfl⟩ := List.cons.inj hds
        simpa using hzero
    refine ⟨_, _, ?_, .mk hwhole hf he, rfl⟩
    rw [List.append_assoc, ← hrest, List.cons_append, List.takeWhile_append_dropWhile]

theorem scanWord_ne_number {x : Lexeme} (hx : ∀ v, x ≠ .number v) (ws : List Char) :
    scanWord x ws cs ≠ ⟨.number v, rest⟩ := by
  fun_induction scanWord x ws cs with
  | case1 =>
    intro h
    exact hx v (Scanned.mk.inj h).1
  | case3 _ _ _ ih => exact ih
  | case2 | case4 =>
    intro h
    cases h

theorem scanString_ne_number : scanString cs ≠ ⟨.number v, rest⟩ := by
  rw [scanString]
  intro h
  split at h <;> cases h

/-- **What is scanned as a number spells one.** -/
theorem exists_spellsNumeral_of_scanLexeme {c : Char} (h : scanLexeme c cs = ⟨.number v, rest⟩) :
    ∃ text n, c :: cs = text ++ rest ∧ SpellsNumeral text n ∧ v = n.value? := by
  unfold scanLexeme at h
  split at h
  case h_7 => exact absurd h scanString_ne_number
  case h_8 | h_9 | h_10 => exact absurd h (scanWord_ne_number (fun _ hx => by cases hx) _)
  case h_11 =>
    unfold scanNegative at h
    split at h
    · cases h
    · next c cs =>
      split at h
      · next hc =>
        obtain ⟨text, n, htext, hspells, hv⟩ := exists_of_scanNumber hc h
        exact ⟨'-' :: text, n, by rw [htext, List.cons_append], .minus hspells, hv⟩
      · cases h
  case h_12 =>
    split at h
    · next hc =>
      obtain ⟨text, n, htext, hspells, hv⟩ := exists_of_scanNumber hc h
      exact ⟨text, n, htext, .plain hspells, hv⟩
    · cases h
  all_goals cases h

end Sound

/-! ### Integers -/

theorem spellsUnsigned_digits (negative : Bool) (n : Nat) :
    SpellsUnsigned negative (Nat.toDigits 10 n) ⟨negative, Nat.toDigits 10 n, [], none⟩ := by
  have h : SpellsUnsigned negative (Nat.toDigits 10 n ++ ([] ++ [])) _ :=
    .mk (isWhole_digits n) .none .none
  rwa [List.append_nil, List.append_nil] at h

/-- The value of digits without a sign that fit into 64 bits. -/
theorem value?_digits {n : Nat} (h : n ≤ maxWord) :
    Numeral.value? ⟨false, Nat.toDigits 10 n, [], none⟩ = some (.integer n) := by
  simp [Numeral.value?, natOfDigits_digits, h]

/-- The value of digits with a minus sign that fit into 64 bits with a sign. -/
theorem value?_negative_digits {n : Nat} (h : 1 ≤ n) (hlow : Int64.minValue.toInt ≤ -n) :
    Numeral.value? ⟨true, Nat.toDigits 10 n, [], none⟩ = some (.integer (-n)) := by
  have hfits : 1 ≤ n ∧ Int64.minValue.toInt ≤ -n := ⟨h, hlow⟩
  simp only [Numeral.value?, natOfDigits_digits]
  simpa using hfits

/-- **An integer of 64 bits is spelled by its decimal digits**, and read as that integer. -/
theorem exists_spellsNumeral_toString (m : Int64) :
    ∃ n, SpellsNumeral (toString m.toInt).toList n ∧ n.value? = some (.integer m.toInt) := by
  have hlow := m.minValue_le_toInt
  have hhigh := m.toInt_lt
  rw [Int.toString_eq_repr, Int.repr_eq_if]
  split
  · next h =>
    rw [Nat.toList_repr]
    refine ⟨_, .plain (spellsUnsigned_digits false m.toInt.toNat), ?_⟩
    have hfits : m.toInt.toNat ≤ maxWord := by
      have : maxWord = 2 ^ 64 - 1 := rfl
      omega
    rw [value?_digits hfits, Int.toNat_of_nonneg h]
  · next h =>
    have hneg : ((-m.toInt).toNat : Int) = -m.toInt := Int.toNat_of_nonneg (by omega)
    refine ⟨⟨true, Nat.toDigits 10 (-m.toInt).toNat, [], none⟩, ?_, ?_⟩
    · rw [String.toList_append, Nat.toList_repr]
      exact .minus (spellsUnsigned_digits true _)
    · rw [value?_negative_digits (by omega) (by omega), hneg, Int.neg_neg]

end Downhill.Json
