import Downhill.Simplex.Basic
import Mathlib.Data.Prod.Lex

/-!
# The order of doubles

Doubles are compared as numbers: what is no number is not comparable with anything, and the two
zeros are equal. On the numbers, infinities among them, the comparison is a total preorder. This is
shown by giving each of them a place in a linear order (`standing`): the sign first, then the
exponent, then the mantissa.

What is proved: comparisons of numbers are comparisons of their places (`le_iff_standing`,
`lt_iff_standing`). A value as it ranks is finite or positive infinity (`IsRanked`), hence a number,
and infinity less such a value is within no finite tolerance (`not_infinity_sub_le`), be that value
finite or infinite.
-/

namespace Downhill

open Float.Model UnpackedFloat

/-! ### Places -/

/-- Where a number stands among all numbers: its sign, then how large its exponent and its mantissa
are, the other way round below zero. What is no number is put with the zeros. -/
def unpackedStanding : UnpackedFloat → ℤ ×ₗ ℤ ×ₗ ℤ
  | .infinity .negative => toLex (-2, toLex (0, 0))
  | .finite .negative m e _ => toLex (-1, toLex (-e, -m))
  | .zero _ | .notANumber => toLex (0, toLex (0, 0))
  | .finite .positive m e _ => toLex (1, toLex (e, m))
  | .infinity .positive => toLex (2, toLex (0, 0))

/-- Pairs in a lexicographic order are compared by their first parts first. -/
theorem compare_toLex {α β : Type} [Ord α] [Ord β] (a c : α) (b d : β) :
    compare (toLex (a, b)) (toLex (c, d)) = (compare a c).then (compare b d) := rfl

theorem compare_neg_neg (a b : ℤ) : compare (-a) (-b) = compare b a := by
  rcases lt_trichotomy a b with h | rfl | h
  · rw [compare_gt_iff_gt.mpr (Int.neg_lt_neg h), compare_gt_iff_gt.mpr h]
  · simp
  · rw [compare_lt_iff_lt.mpr (Int.neg_lt_neg h), compare_lt_iff_lt.mpr h]

theorem compare_cast_cast (a b : ℕ) : compare (a : ℤ) b = compare a b := by
  rcases lt_trichotomy a b with h | rfl | h
  · rw [compare_lt_iff_lt.mpr h, compare_lt_iff_lt.mpr (Int.ofNat_lt.mpr h)]
  · simp
  · rw [compare_gt_iff_gt.mpr h, compare_gt_iff_gt.mpr (Int.ofNat_lt.mpr h)]

/-- Positive numbers are compared by their exponents first, then by their mantissas. -/
theorem compare_positive (m₁ m₂ : ℕ) (e₁ e₂ : ℤ) :
    (compare e₁ e₂).then (compare m₁ m₂) =
      compare (toLex ((1 : ℤ), toLex (e₁, (m₁ : ℤ)))) (toLex (1, toLex (e₂, (m₂ : ℤ)))) := by
  rw [compare_toLex, compare_toLex, compare_cast_cast]
  rfl

/-- Negative numbers are compared the other way round. -/
theorem compare_negative (m₁ m₂ : ℕ) (e₁ e₂ : ℤ) :
    ((compare e₁ e₂).then (compare m₁ m₂)).swap =
      compare (toLex ((-1 : ℤ), toLex (-e₁, -(m₁ : ℤ)))) (toLex (-1, toLex (-e₂, -(m₂ : ℤ)))) := by
  rw [compare_toLex, compare_toLex, compare_neg_neg, compare_neg_neg, compare_neg_neg,
    compare_cast_cast, Ordering.swap_then, Int.compare_swap, Nat.compare_swap]
  rfl

/-- Numbers are compared by their places. -/
theorem unpacked_compare {a b : UnpackedFloat} (ha : a ≠ .notANumber) (hb : b ≠ .notANumber) :
    a.compare b = some (compare (unpackedStanding a) (unpackedStanding b)) := by
  rcases a with (_ | _) | _ | _ | ⟨_ | _, m₁, e₁, _⟩ <;>
    rcases b with (_ | _) | _ | _ | ⟨_ | _, m₂, e₂, _⟩ <;> try contradiction
  -- only of two finite numbers of one sign the exponents and the mantissas matter
  all_goals try rfl
  · exact congrArg some (compare_negative m₁ m₂ e₁ e₂)
  · exact congrArg some (compare_positive m₁ m₂ e₁ e₂)

/-- What is no number is not comparable. -/
theorem unpacked_compare_eq_none {a b : UnpackedFloat} (h : a = .notANumber ∨ b = .notANumber) :
    a.compare b = none := by
  rcases h with rfl | rfl
  · rfl
  · rcases a with (_ | _) | _ | _ | ⟨_ | _, _, _, _⟩ <;> rfl

/-- Where a number stands among all numbers. -/
def standing (y : Float) : ℤ ×ₗ ℤ ×ₗ ℤ := unpackedStanding y.toModel.unpack

variable {a b c : Float}

theorem le_iff_unpack : a ≤ b ↔ a.toModel.unpack.le b.toModel.unpack = true :=
  decide_eq_true_iff

theorem lt_iff_unpack : a < b ↔ a.toModel.unpack.lt b.toModel.unpack = true :=
  decide_eq_true_iff

theorem unpack_ne_notANumber (ha : a.isNaN = false) : a.toModel.unpack ≠ .notANumber := by
  intro h
  change a.toModel.unpack.isNaN = false at ha
  rw [h] at ha
  cases ha

theorem isNaN_of_unpack_ne_notANumber (ha : a.toModel.unpack ≠ .notANumber) :
    a.isNaN = false := by
  change a.toModel.unpack.isNaN = false
  cases hu : a.toModel.unpack with
  | notANumber => exact absurd hu ha
  | infinity s => rfl
  | zero s => rfl
  | finite s m e h => rfl

/-- What can be compared is a number. -/
theorem isNaN_of_le (h : a ≤ b) : a.isNaN = false ∧ b.isNaN = false := by
  rw [le_iff_unpack, UnpackedFloat.le] at h
  constructor
  · refine isNaN_of_unpack_ne_notANumber fun ha => ?_
    rw [unpacked_compare_eq_none (.inl ha)] at h
    cases h
  · refine isNaN_of_unpack_ne_notANumber fun hb => ?_
    rw [unpacked_compare_eq_none (.inr hb)] at h
    cases h

/-- **Numbers are compared by their places.** -/
theorem le_iff_standing (ha : a.isNaN = false) (hb : b.isNaN = false) :
    a ≤ b ↔ standing a ≤ standing b := by
  rw [le_iff_unpack, UnpackedFloat.le,
    unpacked_compare (unpack_ne_notANumber ha) (unpack_ne_notANumber hb), Option.any_some,
    standing, standing, ← compare_le_iff_le]
  exact Ordering.isLE_iff_ne_gt

theorem lt_iff_standing (ha : a.isNaN = false) (hb : b.isNaN = false) :
    a < b ↔ standing a < standing b := by
  rw [lt_iff_unpack, UnpackedFloat.lt,
    unpacked_compare (unpack_ne_notANumber ha) (unpack_ne_notANumber hb), standing, standing,
    ← compare_lt_iff_lt]
  simp

theorem float_le_refl (ha : a.isNaN = false) : a ≤ a :=
  (le_iff_standing ha ha).mpr le_rfl

theorem float_le_trans (hab : a ≤ b) (hbc : b ≤ c) : a ≤ c := by
  obtain ⟨ha, hb⟩ := isNaN_of_le hab
  obtain ⟨-, hc⟩ := isNaN_of_le hbc
  rw [le_iff_standing ha hb] at hab
  rw [le_iff_standing hb hc] at hbc
  rw [le_iff_standing ha hc]
  exact hab.trans hbc

theorem float_not_lt_iff (ha : a.isNaN = false) (hb : b.isNaN = false) : ¬ a < b ↔ b ≤ a := by
  rw [lt_iff_standing ha hb, le_iff_standing hb ha, not_lt]

theorem float_le_of_lt (ha : a.isNaN = false) (hb : b.isNaN = false) (h : a < b) : a ≤ b := by
  rw [lt_iff_standing ha hb] at h
  exact (le_iff_standing ha hb).mpr h.le

theorem float_lt_of_lt_of_le (ha : a.isNaN = false) (hab : a < b) (hbc : b ≤ c) : a < c := by
  obtain ⟨hb, hc⟩ := isNaN_of_le hbc
  rw [lt_iff_standing ha hb] at hab
  rw [le_iff_standing hb hc] at hbc
  exact (lt_iff_standing ha hc).mpr (hab.trans_le hbc)

/-! ### Values as they rank -/

/-- The value is finite or positive infinity. -/
def IsRanked (y : Float) : Prop := y.isFinite = true ∨ y = infinity

theorem isRanked_rankedValue (y : Float) : IsRanked (rankedValue y) := by
  by_cases h : y.isFinite = true
  · rw [rankedValue_of_isFinite h]
    exact .inl h
  · rw [rankedValue_of_not_isFinite (by simpa using h)]
    exact .inr rfl

theorem unpack_infinity : infinity.toModel.unpack = .infinity .positive := rfl

theorem not_isFinite_infinity : infinity.isFinite = false := rfl

theorem isNaN_of_isFinite (h : a.isFinite = true) : a.isNaN = false := by
  change a.toModel.unpack.isFinite = true at h
  refine isNaN_of_unpack_ne_notANumber fun hu => ?_
  rw [hu] at h
  cases h

theorem IsRanked.isNaN (h : IsRanked a) : a.isNaN = false := by
  rcases h with h | rfl
  · exact isNaN_of_isFinite h
  · rfl

theorem IsRanked.ne_neg_infinity (h : IsRanked a) : a ≠ -infinity := by
  rintro rfl
  have hfin : (-infinity).isFinite = false := rfl
  rcases h with h | h
  · rw [hfin] at h
    cases h
  · exact absurd h (by decide)

/-- Only a value that is finite ranks as a finite one, and it ranks as itself. -/
theorem rankedValue_of_isFinite_rankedValue (h : (rankedValue a).isFinite = true) :
    rankedValue a = a := by
  by_cases ha : a.isFinite = true
  · exact rankedValue_of_isFinite ha
  · rw [rankedValue_of_not_isFinite (by simpa using ha), not_isFinite_infinity] at h
    cases h

/-- Infinity is below nothing finite. -/
theorem not_infinity_le (h : a.isFinite = true) : ¬ infinity ≤ a := by
  change a.toModel.unpack.isFinite = true at h
  rw [le_iff_unpack, unpack_infinity]
  generalize a.toModel.unpack = u at h
  cases u with
  | notANumber => cases h
  | infinity s => cases h
  | zero s => exact Bool.false_ne_true
  | finite s m e hm => exact Bool.false_ne_true

/-- What is below a finite value, as values rank, is finite. -/
theorem IsRanked.isFinite_of_le (ha : IsRanked a) (hb : b.isFinite = true) (h : a ≤ b) :
    a.isFinite = true := by
  rcases ha with ha | rfl
  · exact ha
  · exact absurd h (not_infinity_le hb)

/-- Infinity less a finite value is infinite, and infinity less infinity is no number. Neither is
within a finite tolerance. -/
theorem not_infinity_sub_le (ha : IsRanked a) (hb : b.isFinite = true) : ¬ infinity - a ≤ b := by
  rcases ha with ha | rfl
  · have hsub : infinity - a = infinity := by
      change a.toModel.unpack.isFinite = true at ha
      change Float.ofModel (pack (UnpackedFloat.sub _ infinity.toModel.unpack a.toModel.unpack)) = _
      rw [unpack_infinity]
      generalize a.toModel.unpack = u at ha
      cases u with
      | notANumber => cases ha
      | infinity s => cases ha
      | zero s => rfl
      | finite s m e hm => rfl
    rw [hsub]
    exact not_infinity_le hb
  · intro h
    have hnan : (infinity - infinity).isNaN = true := rfl
    rw [(isNaN_of_le h).1] at hnan
    cases hnan

end Downhill
