import Downhill.Proofs.Float.Literal

/-!
# Doubles as rational numbers

A finite double is a rational number, and arithmetic on doubles is arithmetic on rational numbers with
rounding. Here is the number without the rounding.

What is proved: finite doubles are equal by value where their numbers are equal, and only there
(`ratValue_eq_iff`).
-/

namespace Downhill

open Float.Model UnpackedFloat

/-- The number that an unpacked double is, if it is finite. -/
def unpackedValue : UnpackedFloat → ℚ
  | .finite s m e _ => s.apply m * 2 ^ e
  | _ => 0

/-- The number that a double is, if it is finite. -/
def ratValue (y : Float) : ℚ := unpackedValue y.toModel.unpack

@[simp] theorem ratValue_zero : ratValue 0 = 0 := rfl

/-! ### Numbers and places -/

/-- Mantissas as large as they can be tell the exponent. -/
theorem le_of_magnitude_eq {m₁ m₂ : ℕ} {e₁ e₂ : ℤ} (hm₁ : m₁ < 2 ^ 53) (he₁ : -1074 ≤ e₁)
    (hm₂ : -1074 < e₂ → 2 ^ 52 ≤ m₂) (h : (m₁ : ℚ) * 2 ^ e₁ = m₂ * 2 ^ e₂) : e₂ ≤ e₁ := by
  by_contra hlt
  obtain ⟨k, hk⟩ : ∃ k : ℕ, e₂ = e₁ + (k + 1 : ℕ) := ⟨(e₂ - e₁ - 1).toNat, by omega⟩
  have hpow : (2 : ℚ) ^ e₂ = 2 ^ (k + 1) * 2 ^ e₁ := by
    rw [hk, zpow_add₀ two_ne_zero, zpow_natCast, mul_comm]
  have hcast : (m₁ : ℚ) = m₂ * 2 ^ (k + 1) := by
    refine mul_right_cancel₀ (zpow_ne_zero e₁ (two_ne_zero' ℚ)) ?_
    rw [h, hpow, mul_assoc]
  have hnat : m₁ = m₂ * 2 ^ (k + 1) := by exact_mod_cast hcast
  have hfull : 2 ^ 52 ≤ m₂ := hm₂ (by omega)
  have hgrows : 2 ^ 52 * 2 ≤ m₂ * 2 ^ (k + 1) := by
    rw [Nat.pow_succ]
    exact Nat.mul_le_mul hfull (Nat.le_mul_of_pos_left 2 (Nat.two_pow_pos k))
  omega

/-- Magnitudes that are equal have equal mantissas and exponents. -/
theorem magnitude_eq_iff {m₁ m₂ : ℕ} {e₁ e₂ : ℤ}
    (h₁ : m₁ < 2 ^ 53 ∧ -1074 ≤ e₁ ∧ (-1074 < e₁ → 2 ^ 52 ≤ m₁))
    (h₂ : m₂ < 2 ^ 53 ∧ -1074 ≤ e₂ ∧ (-1074 < e₂ → 2 ^ 52 ≤ m₂)) :
    (m₁ : ℚ) * 2 ^ e₁ = m₂ * 2 ^ e₂ ↔ e₁ = e₂ ∧ m₁ = m₂ := by
  constructor
  · intro h
    have he : e₁ = e₂ :=
      le_antisymm (le_of_magnitude_eq h₂.1 h₂.2.1 h₁.2.2 h.symm)
        (le_of_magnitude_eq h₁.1 h₁.2.1 h₂.2.2 h)
    refine ⟨he, ?_⟩
    rw [he] at h
    exact_mod_cast mul_right_cancel₀ (zpow_ne_zero e₂ (two_ne_zero' ℚ)) h
  · rintro ⟨rfl, rfl⟩
    rfl

theorem magnitude_pos {m : ℕ} (hm : 0 < m) (e : ℤ) : (0 : ℚ) < m * 2 ^ e := by positivity

@[simp] theorem unpackedValue_positive {m : ℕ} {e : ℤ} (hm : 0 < m) :
    unpackedValue (.finite .positive m e hm) = m * 2 ^ e := by
  simp [unpackedValue, Sign.apply]

@[simp] theorem unpackedValue_negative {m : ℕ} {e : ℤ} (hm : 0 < m) :
    unpackedValue (.finite .negative m e hm) = -(m * 2 ^ e) := by
  simp [unpackedValue, Sign.apply]

@[simp] theorem unpackedValue_zero (s : Sign) : unpackedValue (.zero s) = 0 := rfl

/-- **Finite numbers are equal where their places are.** -/
theorem unpackedValue_eq_iff {u v : UnpackedFloat} (hu : Canonical u) (hv : Canonical v)
    (hufin : u.isFinite = true) (hvfin : v.isFinite = true) :
    unpackedValue u = unpackedValue v ↔ unpackedStanding u = unpackedStanding v := by
  rcases u with _ | _ | s₁ | ⟨_ | _, m₁, e₁, hm₁⟩ <;>
    rcases v with _ | _ | s₂ | ⟨_ | _, m₂, e₂, hm₂⟩ <;> try contradiction
  -- two zeros, and a zero with a number that is none
  · simp [unpackedStanding]
  · simpa [unpackedStanding] using (magnitude_pos hm₂ e₂).ne'
  · simpa [unpackedStanding] using (magnitude_pos hm₂ e₂).ne
  -- a negative number with a zero, a negative and a positive one
  · simpa [unpackedStanding] using (magnitude_pos hm₁ e₁).ne'
  · have h := magnitude_eq_iff hu hv
    simp only [unpackedValue_negative, neg_inj, unpackedStanding, h]
    simp
  · have hneg : -((m₁ : ℚ) * 2 ^ e₁) ≠ m₂ * 2 ^ e₂ :=
      (neg_lt_zero.mpr (magnitude_pos hm₁ e₁)).trans (magnitude_pos hm₂ e₂) |>.ne
    simpa [unpackedStanding] using hneg
  -- a positive number with a zero, a negative and a positive one
  · simpa [unpackedStanding] using (magnitude_pos hm₁ e₁).ne'
  · have hneg : (m₁ : ℚ) * 2 ^ e₁ ≠ -(m₂ * 2 ^ e₂) :=
      (neg_lt_zero.mpr (magnitude_pos hm₂ e₂)).trans (magnitude_pos hm₁ e₁) |>.ne'
    simpa [unpackedStanding] using hneg
  · have h := magnitude_eq_iff hu hv
    simp only [unpackedValue_positive, unpackedStanding, h]
    simp

/-! ### Equality by value -/

variable {a b : Float}

theorem ratValue_pos (h : isPositive a.toModel.unpack = true) : 0 < ratValue a := by
  unfold ratValue
  revert h
  generalize a.toModel.unpack = u
  rcases u with _ | _ | _ | ⟨_ | _, m, e, hm⟩ <;> intro h <;> try contradiction
  rw [unpackedValue_positive]
  exact magnitude_pos hm e

theorem beq_iff_standing (ha : a.isNaN = false) (hb : b.isNaN = false) :
    (a == b) = true ↔ standing a = standing b := by
  change (a.toModel.unpack.compare b.toModel.unpack == some .eq) = true ↔ _
  rw [unpacked_compare (unpack_ne_notANumber ha) (unpack_ne_notANumber hb), beq_iff_eq,
    Option.some_inj]
  exact compare_eq_iff_eq

/-- **Finite doubles are equal by value where they are the same number.** -/
theorem ratValue_eq_iff (ha : a.isFinite = true) (hb : b.isFinite = true) :
    ratValue a = ratValue b ↔ (a == b) = true := by
  rw [beq_iff_standing (isNaN_of_isFinite ha) (isNaN_of_isFinite hb)]
  exact unpackedValue_eq_iff (canonical_unpack a) (canonical_unpack b) ha hb

end Downhill
