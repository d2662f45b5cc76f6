import Downhill.Proofs.Float.Difference

/-!
# Numbers without a sign

Two doubles may be equal by value and still be told apart by what is computed from them: the zeros
are. And what is no number is not equal to itself. Neither comes up among numbers that are written
with digits and a point, as these have no sign.

What is proved: the double nearest to such a numeral has no sign (`unsigned_ofScientific`), and
doubles without a sign are equal by value only if they are the same (`Unsigned.beq_iff`).
-/

namespace Downhill

open Float.Model UnpackedFloat

/-- It is a number, and no sign stands before it. -/
def Unsigned : UnpackedFloat → Prop
  | .notANumber => False
  | .infinity s | .zero s | .finite s _ _ _ => s = .positive

/-- It is finite and above zero. -/
def isPositive : UnpackedFloat → Bool
  | .finite .positive .. => true
  | _ => false

namespace Unsigned

theorem isNonneg {u : UnpackedFloat} (h : Unsigned u) : IsNonneg u := by
  cases u with
  | notANumber => exact h
  | infinity s => exact h
  | zero s => trivial
  | finite s m e hm => exact h

/-- Packing sets no sign bit. -/
theorem unpackSign_pack {u : UnpackedFloat} (h : Unsigned u) :
    @unpackSign .binary64 (UnpackedFloat.pack .binary64 u) = 0#1 := by
  cases u with
  | notANumber => cases h
  | infinity s =>
    obtain rfl : s = .positive := h
    exact unpackSign_packComponents ..
  | zero s =>
    obtain rfl : s = .positive := h
    exact unpackSign_packComponents ..
  | finite s m e hm =>
    obtain rfl : s = .positive := h
    rw [UnpackedFloat.pack]
    dsimp only
    split
    · exact unpackSign_packComponents ..
    · split <;> exact unpackSign_packComponents ..

/-- A number has no sign if the sign bit is not set. -/
theorem of_unpackSign {b : BitVec Format.binary64.numBits} (hsign : @unpackSign .binary64 b = 0#1)
    (hnum : unpack .binary64 b ≠ .notANumber) : Unsigned (unpack .binary64 b) := by
  rw [UnpackedFloat.unpack, hsign] at hnum ⊢
  revert hnum
  dsimp only
  split
  · split
    · exact fun _ => rfl
    · exact fun hnum => absurd rfl hnum
  · split
    · split <;> exact fun _ => rfl
    · exact fun _ => rfl

/-- A number without a sign comes back as one. -/
theorem unpack_pack {u : UnpackedFloat} (h : Unsigned u) :
    Unsigned (unpack .binary64 (UnpackedFloat.pack .binary64 u)) := by
  refine of_unpackSign h.unpackSign_pack fun hnum => ?_
  have hnonneg := isNonneg_unpack_pack h.isNonneg
  rw [hnum] at hnonneg
  exact hnonneg

/-! ### Arithmetic without signs -/

theorem roundWithAccuracy (m : ℕ) (e : ℤ) (accuracy : Accuracy) :
    Unsigned (UnpackedFloat.roundWithAccuracy .binary64 .positive m e accuracy) := by
  rw [UnpackedFloat.roundWithAccuracy]
  dsimp only
  split <;> rfl

theorem ofNat (n : ℕ) : Unsigned (UnpackedFloat.ofNat .binary64 n) := by
  rw [UnpackedFloat.ofNat, UnpackedFloat.ofInt, UnpackedFloat.normalize]
  split
  next hlt => exact absurd (compare_lt_iff_lt.mp hlt) (not_lt.mpr (Int.natCast_nonneg n))
  · rfl
  · exact roundWithAccuracy ..

theorem div {u v : UnpackedFloat} (h : Unsigned u) (hv : isPositive v = true) :
    Unsigned (UnpackedFloat.div .binary64 u v) := by
  obtain ⟨m, e, hm, rfl⟩ : ∃ m e hm, v = .finite .positive m e hm := by
    rcases v with _ | _ | _ | ⟨_ | _, m, e, hm⟩ <;> try cases hv
    exact ⟨m, e, hm, rfl⟩
  cases u with
  | notANumber => cases h
  | infinity s =>
    obtain rfl : s = .positive := h
    rfl
  | zero s =>
    obtain rfl : s = .positive := h
    rfl
  | finite s m₁ e₁ hm₁ =>
    obtain rfl : s = .positive := h
    exact roundWithAccuracy ..

theorem ofScientific (m : ℕ) (e : ℤ) : Unsigned (UnpackedFloat.ofScientific .binary64 m e) := by
  rw [UnpackedFloat.ofScientific]
  split
  · rfl
  split
  · rfl
  split
  · rfl
  split
  · exact roundWithAccuracy ..
  · exact roundWithAccuracy ..

/-! ### Equality by value -/

/-- **Numbers without a sign are equal by value only if they are the same.** -/
theorem beq_iff {a b : Float} (ha : Unsigned a.toModel.unpack) (hb : Unsigned b.toModel.unpack) :
    (a == b) = true ↔ a = b := by
  rw [Float.beq_iff_ne_nan_and_eq]
  constructor
  · rintro ⟨-, -, h | ⟨-, rfl⟩ | ⟨rfl, -⟩⟩
    · exact h
    · cases hb
    · cases ha
  · rintro rfl
    have hnum : a ≠ Float.nan := by
      rintro rfl
      exact ha
    exact ⟨hnum, hnum, .inl rfl⟩

end Unsigned

/-- The powers of ten that are exact are above zero. -/
theorem isPositive_powerOfTen : ∀ e : Fin Float.exactlyRepresentablePowersOfTen.size,
    isPositive (Float.exactlyRepresentablePowersOfTen[e]).toModel.unpack = true := by
  decide +kernel

/-- **A numeral has no sign.** -/
theorem unsigned_ofScientific (m e : ℕ) :
    Unsigned (Float.ofScientific m true e).toModel.unpack := by
  rw [Float.ofScientific]
  split
  next hsmall =>
    have hfloat : Unsigned m.toUInt64.toFloat.toModel.unpack := .unpack_pack (.ofNat _)
    exact (hfloat.div (isPositive_powerOfTen ⟨e, Nat.lt_succ_of_le hsmall.2⟩)).unpack_pack
  next => exact Unsigned.unpack_pack (.ofScientific _ _)

end Downhill
