import Downhill.Proofs.Float.Order
import Mathlib

/-!
# Differences of doubles

Doubles stand in order by their exponents first. The exponents tell because mantissas are as large as
they can be (`Canonical`): only at the least exponent there are smaller ones. So a number that stands
below another one is below it also when the two are brought to one exponent, which is how they are
subtracted; and rounding keeps a sign.

What is proved: a difference of numbers as values rank, of which the first is not below the second
one, is not below zero (`zero_le_sub`), unless both are infinite, and then it is no number
(`isNaN_infinity_sub_infinity`).
-/

namespace Downhill

open Float.Model UnpackedFloat

/-! ### Mantissas -/

/-- The mantissa has no more bits than there are, and above the least exponent no fewer. -/
def Canonical : UnpackedFloat → Prop
  | .finite _ m e _ => m < 2 ^ 53 ∧ -1074 ≤ e ∧ (-1074 < e → 2 ^ 52 ≤ m)
  | _ => True

/-- A leading bit is added to the bits of a mantissa. -/
theorem toNat_one_append {w : ℕ} (m : BitVec w) : (1#1 ++ m).toNat = 2 ^ w + m.toNat := by
  rw [BitVec.toNat_append, ← Nat.shiftLeft_add_eq_or_of_lt m.isLt, Nat.shiftLeft_eq]
  simp

/-- The mantissa of a double is canonical. -/
theorem canonical_unpack (a : Float) : Canonical a.toModel.unpack := by
  have hbias : ((Format.binary64.exponentBias : ℕ) : ℤ) = 1023 := rfl
  have hbits : ((Format.binary64.mantissaBitsWithoutImplicit : ℕ) : ℤ) = 52 := rfl
  rw [Float.Model.unpack, UnpackedFloat.unpack]
  generalize a.toModel.toBits.toBitVec = b
  have hmantissa : (@unpackMantissa .binary64 b).toNat < 2 ^ 52 :=
    (@unpackMantissa .binary64 b).isLt
  dsimp only
  split
  · split <;> trivial
  split
  · -- the least exponent, and no leading bit
    next hexponent =>
    split
    · trivial
    · have hzero : (@unpackExponent .binary64 b).toNat = 0 := by
        rw [hexponent]
        rfl
      refine ⟨by omega, ?_, ?_⟩
      · rw [hzero, hbias, hbits]
        decide
      · rw [hzero, hbias, hbits]
        intro h
        exact absurd h (by decide)
  · next hexponent =>
    have hpos : 0 < (@unpackExponent .binary64 b).toNat := by
      rw [Nat.pos_iff_ne_zero]
      intro hzero
      exact hexponent (BitVec.eq_of_toNat_eq hzero)
    have hbit := toNat_one_append (@unpackMantissa .binary64 b)
    refine ⟨?_, ?_, fun _ => ?_⟩
    · rw [hbit]
      change 2 ^ 52 + _ < _
      omega
    · rw [hbias, hbits]
      omega
    · rw [hbit]
      exact Nat.le_add_right _ _

/-! ### Signs -/

/-- The number is not below zero. -/
def IsNonneg : UnpackedFloat → Prop
  | .notANumber => False
  | .infinity s => s = .positive
  | .zero _ => True
  | .finite s _ _ _ => s = .positive

theorem zero_le_iff (a : Float) : 0 ≤ a ↔ IsNonneg a.toModel.unpack := by
  have hzero : (0 : Float).toModel.unpack = .zero .positive := rfl
  rw [le_iff_unpack, hzero]
  generalize a.toModel.unpack = u
  rcases u with (_ | _) | _ | _ | ⟨_ | _, m, e, hm⟩
  all_goals simp only [IsNonneg, UnpackedFloat.le, UnpackedFloat.compare]
  all_goals simp

/-- Packing keeps signs: a number comes back as one of the same sign, or as a zero. -/
theorem isNonneg_unpack_packComponents {e : BitVec Format.binary64.exponentBits}
    (m : BitVec Format.binary64.mantissaBitsWithoutImplicit) (he : e ≠ -1) :
    IsNonneg (unpack .binary64 (packComponents .binary64 .positive e m)) := by
  rw [UnpackedFloat.unpack]
  simp only [unpackSign_packComponents, unpackExponent_packComponents,
    unpackMantissa_packComponents, Sign.ofBitVec_toBitVec]
  split
  next htop => exact absurd htop he
  split
  · split
    · trivial
    · rfl
  · rfl

/-- A number that is not below zero is packed as such. -/
theorem isNonneg_unpack_pack {u : UnpackedFloat} (hu : IsNonneg u) :
    IsNonneg (unpack .binary64 (UnpackedFloat.pack .binary64 u)) := by
  have hleast : (0 : BitVec Format.binary64.exponentBits) ≠ -1 := by decide
  cases u with
  | notANumber => cases hu
  | infinity s =>
    obtain rfl : s = .positive := hu
    rfl
  | zero s =>
    rw [UnpackedFloat.pack, unpack_packedZero]
    trivial
  | finite s m e hm =>
    obtain rfl : s = .positive := hu
    rw [UnpackedFloat.pack]
    dsimp only
    split
    · rfl
    next hsmall =>
    split
    · refine isNonneg_unpack_packComponents _ fun h => hsmall ?_
      have hnat := congrArg BitVec.toNat h
      rw [BitVec.toNat_ofNat] at hnat
      change _ = 2047 at hnat
      omega
    · exact isNonneg_unpack_packComponents _ hleast

/-- Rounding keeps signs. -/
theorem isNonneg_round (m : ℕ) (e : ℤ) : IsNonneg (UnpackedFloat.round .binary64 .positive m e) := by
  rw [UnpackedFloat.round]
  dsimp only
  rw [roundWithAccuracy]
  dsimp only
  split
  · trivial
  · rfl

theorem isNonneg_normalize {m : ℤ} (hm : 0 ≤ m) (e : ℤ) :
    IsNonneg (UnpackedFloat.normalize .binary64 m e .positive) := by
  rw [UnpackedFloat.normalize]
  split
  next hlt => exact absurd (compare_lt_iff_lt.mp hlt) (not_lt.mpr hm)
  · trivial
  · exact isNonneg_round _ _

/-! ### Numbers at one exponent -/

/-- A number that stands below another one is below it when both are brought to the lesser of the two
exponents. -/
theorem shift_le_shift {m₁ m₂ : ℕ} {e₁ e₂ : ℤ} (hm₂ : m₂ < 2 ^ 53) (he₂ : -1074 ≤ e₂)
    (hm₁ : -1074 < e₁ → 2 ^ 52 ≤ m₁) (h : e₂ < e₁ ∨ e₂ = e₁ ∧ m₂ ≤ m₁) :
    m₂ <<< (e₂ - min e₁ e₂).toNat ≤ m₁ <<< (e₁ - min e₁ e₂).toNat := by
  rw [Nat.shiftLeft_eq, Nat.shiftLeft_eq]
  rcases h with h | ⟨he, h⟩
  · have hshift : (e₂ - min e₁ e₂).toNat = 0 := by omega
    obtain ⟨k, hk⟩ : ∃ k, (e₁ - min e₁ e₂).toNat = k + 1 := ⟨(e₁ - e₂).toNat - 1, by omega⟩
    have hk2 : 1 ≤ 2 ^ k := Nat.one_le_two_pow
    have hfull := hm₁ (by omega)
    rw [hshift, hk]
    calc m₂ * 2 ^ 0 ≤ 2 ^ 52 * 2 := by omega
      _ ≤ m₁ * 2 ^ (k + 1) := by
        rw [Nat.pow_succ]
        exact Nat.mul_le_mul hfull (by omega)
  · rw [he]
    exact Nat.mul_le_mul_right _ h

/-! ### Differences -/

/-- Finite numbers are subtracted at the lesser of their exponents. -/
theorem isNonneg_sub_finite {s₁ s₂ : Sign} {m₁ m₂ : ℕ} {e₁ e₂ : ℤ} (hm₁ : 0 < m₁) (hm₂ : 0 < m₂)
    (h : s₂.apply ↑(m₂ <<< (e₂ - min e₁ e₂).toNat) ≤ s₁.apply ↑(m₁ <<< (e₁ - min e₁ e₂).toNat)) :
    IsNonneg (UnpackedFloat.sub .binary64 (.finite s₁ m₁ e₁ hm₁) (.finite s₂ m₂ e₂ hm₂)) :=
  isNonneg_normalize (Int.sub_nonneg_of_le h) _

/-- **A difference has the sign that the places tell.** -/
theorem isNonneg_sub {u v : UnpackedFloat} (hu : Canonical u) (hv : Canonical v)
    (hnum : u ≠ .notANumber) (hfin : v.isFinite = true)
    (h : unpackedStanding v ≤ unpackedStanding u) :
    IsNonneg (UnpackedFloat.sub .binary64 u v) := by
  rcases u with (_ | _) | _ | s₁ | ⟨_ | _, m₁, e₁, hm₁⟩ <;>
    rcases v with (_ | _) | _ | s₂ | ⟨_ | _, m₂, e₂, hm₂⟩ <;> try contradiction
  -- infinity less a finite number
  · rfl
  · rfl
  · rfl
  -- zero less a zero, and zero less a negative number
  · cases s₁ <;> cases s₂ <;> trivial
  · rfl
  -- two negative numbers: the one of the greater exponent stands below
  · simp only [unpackedStanding, Prod.Lex.toLex_le_toLex] at h
    have hle := shift_le_shift hu.1 hu.2.1 hv.2.2 (by omega)
    rw [min_comm] at hle
    exact isNonneg_sub_finite hm₁ hm₂ (Int.neg_le_neg (Int.ofNat_le.mpr hle))
  -- a positive number less a zero, and less a negative one
  · rfl
  · have hneg : Sign.negative.apply ↑(m₂ <<< (e₂ - min e₁ e₂).toNat) ≤ 0 :=
      Int.neg_nonpos_of_nonneg (Int.natCast_nonneg _)
    exact isNonneg_sub_finite hm₁ hm₂ (hneg.trans (Int.natCast_nonneg _))
  -- two positive numbers
  · simp only [unpackedStanding, Prod.Lex.toLex_le_toLex] at h
    have hle := shift_le_shift hv.1 hv.2.1 hu.2.2 (by omega)
    exact isNonneg_sub_finite hm₁ hm₂ (Int.ofNat_le.mpr hle)

/-- **A number less one that is not above it is not below zero**, if the other one is finite. -/
theorem zero_le_sub {a b : Float} (hb : b.isFinite = true) (h : b ≤ a) : 0 ≤ a - b := by
  obtain ⟨hbnum, hanum⟩ := isNaN_of_le h
  rw [zero_le_iff]
  change IsNonneg (unpack .binary64 (UnpackedFloat.pack .binary64
    (UnpackedFloat.sub .binary64 a.toModel.unpack b.toModel.unpack)))
  refine isNonneg_unpack_pack (isNonneg_sub (canonical_unpack a) (canonical_unpack b)
    (unpack_ne_notANumber hanum) hb ?_)
  exact (le_iff_standing hbnum hanum).mp h

/-- A finite number less itself is zero. -/
theorem sub_self_of_isFinite {a : Float} (ha : a.isFinite = true) : a - a = 0 := by
  have hzero : UnpackedFloat.sub .binary64 a.toModel.unpack a.toModel.unpack = .zero .positive := by
    change a.toModel.unpack.isFinite = true at ha
    generalize a.toModel.unpack = u at ha
    rcases u with s | _ | s | ⟨s, m, e, hm⟩
    · cases ha
    · cases ha
    · cases s <;> rfl
    · rw [UnpackedFloat.sub]
      dsimp only
      rw [Int.sub_self]
      rfl
  change Float.ofModel (Float.Model.pack (UnpackedFloat.sub .binary64 _ _)) = 0
  rw [hzero]
  rfl

/-- Infinity less infinity is no number. -/
theorem isNaN_infinity_sub_infinity : (infinity - infinity).isNaN = true := rfl

end Downhill
