import Downhill.Proofs.Decimal.Layout
import Downhill.Proofs.Decimal.Shortest

/-!
# Written doubles are read back

A double is written as its shortest decimal, with a sign, and a number is read as the double that its
digits and its exponent round to. The shortest decimal rounds to its double, so it makes no difference
how it is laid out.

What is proved: for every finite double a number is written that is read as this double
(`exists_spells_doubleText`).
-/

namespace Downhill

open Float.Model UnpackedFloat
open Decimal (Layout digits isSigned positionalText scientificText decimalValue pointText shortest)

variable {m : ℕ} {e : ℤ} {s : Sign} {hpos : 0 < m} {x : Float}

namespace Json

/-! ### The nearest double -/

theorem length_digits_bounds {n : ℕ} (hn : 0 < n) :
    10 ^ ((digits n).length - 1) ≤ n ∧ n < 10 ^ (digits n).length := by
  have hlength : 0 < (digits n).length := Nat.length_toDigits_pos
  refine ⟨?_, (Nat.length_toDigits_le_iff (by decide) hlength).mp le_rfl⟩
  rcases Nat.eq_zero_or_pos ((digits n).length - 1) with hzero | hlt
  · rw [hzero]
    exact hn
  · by_contra hnot
    have := (Nat.length_toDigits_le_iff (by decide) hlt).mpr (not_le.mp hnot)
    rw [← digits] at this
    omega

theorem ten_zpow_lt_two_zpow : (10 : ℚ) ^ (-324 : ℤ) < 2 ^ (-1075 : ℤ) := by
  have hnat : 2 ^ 1075 < 10 ^ 324 := by decide +kernel
  have hcast : (2 : ℚ) ^ 1075 < 10 ^ 324 := by exact_mod_cast hnat
  rw [zpow_neg, zpow_neg]
  exact inv_strictAnti₀ (two_zpow_pos 1075) hcast

theorem two_zpow_lt_ten_zpow : (2 : ℚ) ^ (1024 : ℤ) < 10 ^ (309 : ℤ) := by
  have hnat : 2 ^ 1024 < 10 ^ 309 := by decide +kernel
  exact_mod_cast hnat

/-- A decimal that rounds to a double is not read as zero or refused for its size. -/
theorem places_of_roundsTo (hm : IsMagnitude m e) {n : ℕ} {k : ℤ}
    (hr : RoundsTo (n * 10 ^ k) m e) :
    -323 ≤ k + (digits n).length ∧ k + (digits n).length ≤ 309 := by
  obtain ⟨hlow, hhigh⟩ := length_digits_bounds (hr.coefficient_pos hm)
  have hlength : 0 < (digits n).length := Nat.length_toDigits_pos
  have hten : (0 : ℚ) < 10 ^ k := zpow_pos (by norm_num) k
  constructor
  · by_contra hnot
    have hlt : (n : ℚ) * 10 ^ k < 10 ^ (k + (digits n).length) := by
      rw [zpow_add₀ (by norm_num), mul_comm, zpow_natCast]
      exact mul_lt_mul_of_pos_left (by exact_mod_cast hhigh) hten
    have hle : (10 : ℚ) ^ (k + (digits n).length) ≤ 10 ^ (-324 : ℤ) :=
      zpow_le_zpow_right₀ (by norm_num) (by omega)
    exact (hr.ge hm).not_gt ((hlt.trans_le hle).trans ten_zpow_lt_two_zpow)
  · by_contra hnot
    have hge : (10 : ℚ) ^ (k + ((digits n).length - 1 : ℕ)) ≤ (n : ℚ) * 10 ^ k := by
      rw [zpow_add₀ (by norm_num), mul_comm (n : ℚ), zpow_natCast]
      exact mul_le_mul_of_nonneg_left (by exact_mod_cast hlow) hten.le
    have hle : (10 : ℚ) ^ (309 : ℤ) ≤ 10 ^ (k + ((digits n).length - 1 : ℕ)) :=
      zpow_le_zpow_right₀ (by norm_num) (by omega)
    have htwo : (2 : ℚ) ^ (53 + e) ≤ 2 ^ (1024 : ℤ) := by
      have htop := hm.top
      exact zpow_le_zpow_right₀ one_le_two (by omega)
    exact (hle.trans hge).not_gt (((hr.lt hm).trans_le htwo).trans two_zpow_lt_ten_zpow)

/-- **A decimal is read as the double that it rounds to.** -/
theorem nearest?_eq (hx : x.toModel.unpack = .finite .positive m e hpos) {n : ℕ} {k : ℤ}
    (hr : RoundsTo (n * 10 ^ k) m e) : nearest? n k = some x := by
  have hm := isMagnitude_of_unpack hx
  have hn := hr.coefficient_pos hm
  obtain ⟨hlow, hhigh⟩ := places_of_roundsTo hm hr
  have hsmall : ¬ (n = 0 ∨ k + (digits n).length < -323) := by omega
  have hlarge : ¬ 309 < k + (digits n).length := by omega
  have hread : Float.ofScientific n (decide (k < 0)) k.natAbs = x := by
    refine ofScientific_eq hx ?_
    have hexponent : (if decide (k < 0) = true then -(k.natAbs : ℤ) else k.natAbs) = k := by
      split
      next h =>
        have := of_decide_eq_true h
        omega
      next h =>
        have := of_decide_eq_false (Bool.eq_false_of_not_eq_true h)
        omega
    rwa [hexponent]
  have hinf : x.isInf = false := by
    change x.toModel.unpack.isInf = false
    rw [hx]
    rfl
  rw [nearest?]
  simp only [Bool.or_eq_true, decide_eq_true_eq, if_neg hsmall, if_neg hlarge, hread, hinf]
  rfl

/-! ### Numerals -/

/-- **A numeral is read as the double that it rounds to.** -/
theorem double?_eq (hx : x.toModel.unpack = .finite s m e hpos) {n : Numeral}
    (hsign : n.negative = true ↔ s = .negative)
    (hr : RoundsTo (decimalValue n.whole n.fraction (n.exponent.getD 0)) m e) :
    n.double? = some x := by
  rw [Numeral.double?]
  cases s with
  | positive =>
    rw [if_neg (hsign.not.mpr Sign.noConfusion)]
    exact nearest?_eq hx hr
  | negative =>
    have hread := nearest?_eq (unpack_neg hx) hr
    rw [if_pos (hsign.mpr rfl), hread, Option.map_some,
      eq_of_unpack_eq (unpack_neg (unpack_neg hx)) hx]

/-- A number with a point or an exponent is read as a double. -/
theorem value?_of_not_isInteger {n : Numeral}
    (h : (n.fraction.isEmpty && n.exponent.isNone) = false) : n.value? = n.double?.map .double := by
  rw [Numeral.value?, h]
  rfl

theorem spellsFraction_pointText {fraction : List Char}
    (h : ∀ c ∈ fraction, Decimal.isDigit c = true) : SpellsFraction (pointText fraction) fraction := by
  cases fraction with
  | nil => exact .none
  | cons c cs => exact .digits ⟨List.cons_ne_nil c cs, h⟩

/-- A decimal is laid out in one of two ways. -/
theorem text_cases (l : Layout) (d : ℕ) (k : ℤ) :
    l.text ⟨d, k⟩ = positionalText l.pointed (digits d) k ∨
      l.text ⟨d, k⟩ = scientificText l.signed (digits d) (k + ((digits d).length - 1 : ℕ)) := by
  simp only [Layout.text]
  exact ite_eq_or_eq ..

/-- **A decimal is laid out as a number that is it**, and that is read as a double. -/
theorem exists_spells_text (negative : Bool) {d : ℕ} {k : ℤ} (hzero : d = 0 → k = 0) :
    ∃ n : Numeral, SpellsUnsigned negative (doubleLayout.text ⟨d, k⟩) n ∧ n.negative = negative ∧
      (n.fraction.isEmpty && n.exponent.isNone) = false ∧
      decimalValue n.whole n.fraction (n.exponent.getD 0) = d * 10 ^ k := by
  rcases text_cases doubleLayout d k with htext | htext
  · obtain ⟨whole, fraction, hpositional, hwhole, hfraction, hpointed, hvalue⟩ :=
      Decimal.exists_positionalText true hzero
    refine ⟨⟨negative, whole, fraction, none⟩, ?_, rfl, by simpa using hpointed rfl, hvalue⟩
    have hspells : SpellsUnsigned negative (whole ++ (pointText fraction ++ [])) _ :=
      .mk hwhole (spellsFraction_pointText hfraction) .none
    rw [List.append_nil, ← hpositional] at hspells
    rwa [htext]
  · obtain ⟨whole, fraction, exponentText, exponent, hscientific, hwhole, hfraction, hexponent,
      hvalue⟩ := Decimal.exists_scientificText (d := d) true k
    refine ⟨⟨negative, whole, fraction, some exponent⟩, ?_, rfl, Bool.and_false _, hvalue⟩
    have hspells : SpellsUnsigned negative (whole ++ (pointText fraction ++ exponentText)) _ :=
      .mk hwhole (spellsFraction_pointText hfraction) hexponent
    rw [← hscientific] at hspells
    rwa [htext]

theorem toList_doubleText (hx : x.isFinite = true) : (doubleText x).toList =
    (if isSigned x then ['-'] else []) ++ doubleLayout.text (shortest .even (.ofFloat x)) := by
  rw [doubleText, if_pos hx, Layout.toList_write doubleLayout hx]
  rfl

/-- The zeros are written with a zero behind the point. -/
theorem exists_spells_zero (hx : x = 0 ∨ x = -0) :
    ∃ n : Numeral, SpellsNumeral (doubleText x).toList n ∧ n.value? = some (.double x) := by
  have hspells (negative : Bool) : SpellsUnsigned negative (['0'] ++ (['.', '0'] ++ []))
      ⟨negative, ['0'], ['0'], none⟩ :=
    .mk Decimal.isWhole_zero (.digits (areDigits_digits 0)) .none
  rcases hx with rfl | rfl
  · have htext : (doubleText 0).toList = ['0'] ++ (['.', '0'] ++ []) := by decide +kernel
    rw [htext]
    exact ⟨_, .plain (hspells false), by decide +kernel⟩
  · have htext : (doubleText (-0)).toList = '-' :: (['0'] ++ (['.', '0'] ++ [])) := by decide +kernel
    rw [htext]
    exact ⟨_, .minus (hspells true), by decide +kernel⟩

/-- **A finite double is written as a number that is read as this double.** -/
theorem exists_spells_doubleText (hx : x.isFinite = true) :
    ∃ n : Numeral, SpellsNumeral (doubleText x).toList n ∧ n.value? = some (.double x) := by
  obtain hzero | ⟨s, m, e, hpos, hu⟩ := zero_or_finite_of_isFinite hx
  · exact exists_spells_zero hzero
  · obtain ⟨d, k, hshortest, hd, hr⟩ := Decimal.exists_shortest_ofFloat hu .even
    obtain ⟨n, hspells, hnegative, hdouble, hvalue⟩ :=
      exists_spells_text (isSigned x) (k := k) (fun hzero => absurd hzero hd.ne')
    have hsign : n.negative = true ↔ s = .negative := by
      rw [hnegative]
      exact Decimal.isSigned_iff hu
    rw [← hvalue] at hr
    refine ⟨n, ?_, ?_⟩
    · rw [toList_doubleText hx, hshortest]
      cases hsigned : isSigned x with
      | true =>
        rw [hsigned] at hspells
        exact .minus hspells
      | false =>
        rw [hsigned] at hspells
        exact .plain hspells
    · rw [value?_of_not_isInteger hdouble, double?_eq hu hsign hr]
      rfl

end Json

end Downhill
