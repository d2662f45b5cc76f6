import Downhill.Proofs.Float.Value

/-!
# Rounding to the nearest double

A result of arithmetic comes as a mantissa that may be too long and as what is known of the bits
behind it, and is shifted to the exponent that its magnitude has. What is shifted out is kept in two
bits, which tell whether it is nothing, less than a half of the last place, a half, or more.

What is proved: the two bits tell the truth (`Truncates`), before and after a shift, and a number that
lies nearer to a double than to the others, or as near to it and to another one while it is the even one
(`RoundsTo`), is rounded to it (`roundWithAccuracy_eq`).
-/

namespace Downhill

open Float.Model UnpackedFloat

/-! ### What is shifted out -/

/-- The mantissa is what the number has before its point, and the two bits tell what it has behind
it. -/
def Truncates (em : ExtendedMantissa) (u : ℚ) : Prop :=
  match em.roundBit, em.stickyBit with
  | false, false => u = em.mantissa
  | false, true => em.mantissa < u ∧ u < em.mantissa + 1 / 2
  | true, false => u = em.mantissa + 1 / 2
  | true, true => em.mantissa + 1 / 2 < u ∧ u < em.mantissa + 1

variable {em : ExtendedMantissa} {u r : ℚ} {n : ℕ}

theorem Truncates.mantissa_le (h : Truncates em u) : (em.mantissa : ℚ) ≤ u ∧ u < em.mantissa + 1 := by
  obtain ⟨m, _ | _, _ | _⟩ := em <;> simp only [Truncates] at h ⊢ <;> constructor <;> linarith

/-- A shift by one place. -/
theorem Truncates.shiftRightOne (h : Truncates em u) : Truncates em.shiftRightOne (u / 2) := by
  obtain ⟨m, roundBit, stickyBit⟩ := em
  obtain ⟨half, hm⟩ : ∃ half, m = 2 * half ∨ m = 2 * half + 1 := ⟨m / 2, by omega⟩
  rcases hm with rfl | rfl <;> cases roundBit <;> cases stickyBit <;>
    simp [Truncates, ExtendedMantissa.shiftRightOne, Nat.mul_add_div] at h ⊢
  -- what the even or odd last digit adds is a half or nothing
  all_goals first | linarith | (constructor <;> linarith)

/-- A shift by several places. -/
theorem Truncates.shiftRight (h : Truncates em u) (k : ℕ) : Truncates (em >>> k) (u / 2 ^ k) := by
  induction k with
  | zero =>
    rw [pow_zero, div_one]
    exact h
  | succ k ih =>
    have hstep := ih.shiftRightOne
    rw [div_div, ← pow_succ] at hstep
    exact hstep

/-- An exact mantissa truncates itself. -/
theorem truncates_exact (m : ℕ) :
    Truncates (ExtendedMantissa.ofMantissaAndAccuracy m .exact) m := rfl

/-! ### The nearest natural number -/

/-- The natural number is nearest, or as near as another one and even. -/
structure Nearest (u : ℚ) (n : ℕ) : Prop where
  /-- It is not too great. -/
  below : (n : ℚ) - 1 / 2 ≤ u
  /-- It is not too small. -/
  above : u ≤ (n : ℚ) + 1 / 2
  /-- It is even if another one is as near. -/
  even : u = (n : ℚ) - 1 / 2 ∨ u = (n : ℚ) + 1 / 2 → n % 2 = 0

/-- **A mantissa is rounded to the nearest one.** -/
theorem Truncates.roundedMantissa_eq (h : Truncates em u) (hn : Nearest u n) :
    em.roundedMantissa = n := by
  obtain ⟨hbelow, habove, heven⟩ := hn
  obtain ⟨m, _ | _, _ | _⟩ := em <;> simp only [Truncates] at h
  · -- nothing is shifted out
    have hle : (m : ℚ) < (n + 1 : ℕ) := by push_cast; linarith
    have hge : (n : ℚ) < (m + 1 : ℕ) := by push_cast; linarith
    rw [Nat.cast_lt] at hle hge
    show m = n
    omega
  · -- less than a half
    have hle : (m : ℚ) < (n + 1 : ℕ) := by push_cast; linarith
    have hge : (n : ℚ) < (m + 1 : ℕ) := by push_cast; linarith
    rw [Nat.cast_lt] at hle hge
    show m = n
    omega
  · -- a half
    have hle : (m : ℚ) < (n + 1 : ℕ) := by push_cast; linarith
    have hge : (n : ℚ) < (m + 2 : ℕ) := by push_cast; linarith
    rw [Nat.cast_lt] at hle hge
    have hcases : n = m ∨ n = m + 1 := by omega
    show m + m % 2 = n
    rcases hcases with rfl | rfl
    · have := heven (.inr h)
      omega
    · have := heven (.inl (by push_cast; linarith))
      omega
  · -- more than a half
    have hle : (m : ℚ) < (n : ℕ) := by linarith
    have hge : (n : ℚ) < (m + 2 : ℕ) := by push_cast; linarith
    rw [Nat.cast_lt] at hle hge
    show m + 1 = n
    omega

/-! ### The exponent of a number -/

theorem targetExponent_eq (m : ℕ) (e : ℤ) :
    Format.binary64.targetExponent (totalExponent m e) = max (m.log2 + e - 52) (-1074) := by
  have hbits : (Format.binary64.mantissaBits : ℤ) = 53 := rfl
  have hmin : Format.binary64.minExponent = -1074 := rfl
  rw [Format.targetExponent, totalExponent, hbits, hmin]
  congr 1
  omega

/-- Powers of two are compared by their exponents. -/
theorem two_zpow_lt {a b : ℤ} : (2 : ℚ) ^ a < 2 ^ b ↔ a < b :=
  zpow_lt_zpow_iff_right₀ one_lt_two

theorem two_zpow_add (a b : ℤ) : (2 : ℚ) ^ (a + b) = 2 ^ a * 2 ^ b :=
  zpow_add₀ two_ne_zero a b

theorem two_zpow_pos (a : ℤ) : (0 : ℚ) < 2 ^ a := zpow_pos two_pos a

/-- A truncated number lies between its mantissa and the next one. -/
theorem Truncates.bounds {e : ℤ} (h : Truncates em (r / 2 ^ e)) :
    em.mantissa * 2 ^ e ≤ r ∧ r < (em.mantissa + 1) * 2 ^ e := by
  obtain ⟨hle, hlt⟩ := h.mantissa_le
  exact ⟨(le_div_iff₀ (two_zpow_pos e)).mp hle, (div_lt_iff₀ (two_zpow_pos e)).mp hlt⟩

/-- The exponent that a mantissa is shifted to is the one at which the number has 53 places, but none
below the least one. -/
theorem max_log2_eq {m : ℕ} {e t : ℤ} (hle : m * 2 ^ e ≤ r) (hlt : r < (m + 1) * 2 ^ e)
    (he : e ≤ max (m.log2 + e - 52) (-1074)) (hhigh : r < 2 ^ (53 + t))
    (hlow : t = -1074 ∨ -1074 ≤ t ∧ 2 ^ (52 + t) ≤ r) : max (m.log2 + e - 52) (-1074) = t := by
  -- the places of the mantissa, from above
  have hplaces : m ≠ 0 → m.log2 + e < 53 + t := by
    intro hm
    have hpow : (2 : ℚ) ^ (m.log2 + e : ℤ) ≤ m * 2 ^ e := by
      rw [two_zpow_add, zpow_natCast]
      have hlog : ((2 ^ m.log2 : ℕ) : ℚ) ≤ m := Nat.cast_le.mpr (Nat.log2_self_le hm)
      push_cast at hlog
      exact mul_le_mul_of_nonneg_right hlog (two_zpow_pos e).le
    exact two_zpow_lt.mp ((hpow.trans hle).trans_lt hhigh)
  -- and from below
  have hfull : 2 ^ (52 + t) ≤ r → e ≤ t → m ≠ 0 ∧ 52 + t ≤ m.log2 + e := by
    intro hr het
    obtain ⟨k, hk⟩ : ∃ k : ℕ, 52 + t = k + e := ⟨(52 + t - e).toNat, by omega⟩
    have hpow : (2 : ℚ) ^ k < m + 1 := by
      rw [hk, two_zpow_add, zpow_natCast] at hr
      exact lt_of_mul_lt_mul_right (hr.trans_lt hlt) (two_zpow_pos e).le
    have hnat : 2 ^ k ≤ m := by
      have : 2 ^ k < m + 1 := by exact_mod_cast hpow
      omega
    have hm : m ≠ 0 := by
      have := Nat.two_pow_pos k
      omega
    have := (Nat.le_log2 hm).mpr hnat
    exact ⟨hm, by omega⟩
  by_cases hm : m = 0
  · subst hm
    rw [Nat.log2_zero] at he ⊢
    rcases hlow with rfl | ⟨ht, hr⟩
    · omega
    · exact absurd rfl (hfull hr (by omega)).1
  · have := hplaces hm
    rcases hlow with rfl | ⟨ht, hr⟩
    · omega
    · have := (hfull hr (by omega)).2
      omega

/-- A mantissa is shifted to its exponent, and what it truncates with it. -/
theorem shiftToTargetExponent_eq {m : ℕ} {e t : ℤ} (ht : max (m.log2 + e - 52) (-1074) = t)
    (he : e ≤ t) (accuracy : Accuracy) :
    shiftToTargetExponent .binary64 m e accuracy =
      (ExtendedMantissa.ofMantissaAndAccuracy m accuracy >>> (t - e).toNat, t) := by
  rw [shiftToTargetExponent, targetExponent_eq, ht, shiftToExponent]
  have hsum : e + (t - e).toNat = t := by omega
  simp only [hsum]

theorem Truncates.shiftToTargetExponent {m : ℕ} {e t : ℤ} {accuracy : Accuracy}
    (h : Truncates (ExtendedMantissa.ofMantissaAndAccuracy m accuracy) (r / 2 ^ e)) (he : e ≤ t) :
    Truncates (ExtendedMantissa.ofMantissaAndAccuracy m accuracy >>> (t - e).toNat) (r / 2 ^ t) := by
  have hshift := h.shiftRight (t - e).toNat
  have hpow : (2 : ℚ) ^ t = 2 ^ e * 2 ^ (t - e).toNat := by
    rw [← zpow_natCast, ← two_zpow_add]
    congr 1
    omega
  rwa [div_div, ← hpow] at hshift

/-! ### Rounding -/

/-- The mantissa and the exponent of a double above zero. -/
structure IsMagnitude (m : ℕ) (e : ℤ) : Prop where
  /-- The mantissa is not zero. -/
  pos : 0 < m
  /-- It has no more places than there are. -/
  lt : m < 2 ^ 53
  /-- It has all places, unless the exponent is the least one. -/
  full : -1074 < e → 2 ^ 52 ≤ m
  /-- The exponent is not below the least one. -/
  least : -1074 ≤ e
  /-- The exponent is not above the greatest one. -/
  top : e ≤ 971

/-- Half the distance to the double below, in units of the last place: at a power of two the doubles
below are twice as dense. -/
def marginBelow (m : ℕ) (e : ℤ) : ℚ := if m = 2 ^ 52 ∧ -1074 < e then 1 / 4 else 1 / 2

/-- The number rounds to the double of this mantissa and this exponent: it is nearest, or as near as
another one and has the even mantissa. -/
structure RoundsTo (r : ℚ) (m : ℕ) (e : ℤ) : Prop where
  /-- The double is not too great. -/
  below : (m - marginBelow m e) * 2 ^ e ≤ r
  /-- It is not too small. -/
  above : r ≤ (m + 1 / 2) * 2 ^ e
  /-- It is even if another one is as near. -/
  even : r = (m - marginBelow m e) * 2 ^ e ∨ r = (m + 1 / 2) * 2 ^ e → m % 2 = 0

theorem marginBelow_le (m : ℕ) (e : ℤ) : marginBelow m e ≤ 1 / 2 := by
  unfold marginBelow
  split <;> norm_num

section Round

variable {m m₀ : ℕ} {e e₀ : ℤ} {accuracy : Accuracy}

/-- What rounds to a double is below the numbers with more places. -/
theorem RoundsTo.lt (hr : RoundsTo r m e) (hm : IsMagnitude m e) : r < 2 ^ (53 + e) := by
  have hlast : (m : ℚ) + 1 ≤ 2 ^ 53 := by exact_mod_cast hm.lt
  rw [two_zpow_add]
  refine hr.above.trans_lt (mul_lt_mul_of_pos_right ?_ (two_zpow_pos e))
  norm_num at hlast ⊢
  linarith

/-- A number in the binade of the double, or below the least one, is nearest at its exponent. -/
theorem RoundsTo.nearest (hr : RoundsTo r m e) : Nearest (r / 2 ^ e) m := by
  have hpos := two_zpow_pos e
  have hmargin := marginBelow_le m e
  refine ⟨?_, ?_, ?_⟩
  · rw [le_div_iff₀ hpos]
    exact (mul_le_mul_of_nonneg_right (by linarith) hpos.le).trans hr.below
  · rw [div_le_iff₀ hpos]
    exact hr.above
  · rintro (h | h) <;> rw [div_eq_iff hpos.ne'] at h
    · -- the margin below is not smaller
      refine hr.even (.inl ?_)
      have hbelow := hr.below
      rw [h] at hbelow ⊢
      have := le_of_mul_le_mul_right hbelow hpos
      have heq : marginBelow m e = 1 / 2 := by linarith
      rw [heq]
    · exact hr.even (.inr h)

/-- A number below the binade of the double rounds up to a power of two. -/
theorem RoundsTo.nearest_below (hr : RoundsTo r m e) (he : -1074 < e) (hfull : 2 ^ 52 ≤ m)
    (hlow : r < 2 ^ (52 + e)) :
    m = 2 ^ 52 ∧ 2 ^ (52 + (e - 1)) ≤ r ∧ Nearest (r / 2 ^ (e - 1)) (2 ^ 53) := by
  have hpos := two_zpow_pos e
  have hmargin := marginBelow_le m e
  have hbelow := hr.below
  rw [two_zpow_add] at hlow
  have hm : m = 2 ^ 52 := by
    have hlt := lt_of_mul_lt_mul_right (hbelow.trans_lt hlow) hpos.le
    have hcast : (m : ℚ) < 2 ^ 52 + 1 := by linarith
    have hnat : m < 2 ^ 52 + 1 := by exact_mod_cast hcast
    omega
  have hquarter : marginBelow m e = 1 / 4 := if_pos ⟨hm, he⟩
  rw [hquarter, hm] at hbelow
  have hhalf : (2 : ℚ) ^ e = 2 * 2 ^ (e - 1) := by
    rw [show e = 1 + (e - 1) by omega, two_zpow_add]
    norm_num
  have hpos' := two_zpow_pos (e - 1)
  refine ⟨hm, ?_, ?_, ?_, fun _ => by norm_num⟩
  · rw [two_zpow_add]
    rw [hhalf] at hbelow
    push_cast at hbelow
    norm_num at hbelow ⊢
    linarith
  · rw [le_div_iff₀ hpos']
    rw [hhalf] at hbelow
    push_cast at hbelow ⊢
    norm_num at hbelow ⊢
    linarith
  · rw [div_le_iff₀ hpos']
    rw [hhalf] at hlow
    push_cast
    norm_num at hlow ⊢
    linarith

/-- A mantissa that is as large as it can be, or at the least exponent, is not shifted. -/
theorem IsMagnitude.max_log2_eq (hm : IsMagnitude m e) : max (m.log2 + e - 52) (-1074) = e := by
  have hlt : m.log2 < 53 := (Nat.log2_lt hm.pos.ne').mpr hm.lt
  rcases hm.least.eq_or_lt with rfl | he
  · omega
  · have := (Nat.le_log2 hm.pos.ne').mpr (hm.full he)
    omega

/-- **A number that rounds to a double is rounded to it**, if its mantissa has places enough. -/
theorem roundWithAccuracy_eq (hr : RoundsTo r m e) (hm : IsMagnitude m e)
    (h : Truncates (ExtendedMantissa.ofMantissaAndAccuracy m₀ accuracy) (r / 2 ^ e₀))
    (he₀ : e₀ ≤ max (m₀.log2 + e₀ - 52) (-1074)) (s : Sign) :
    roundWithAccuracy .binary64 s m₀ e₀ accuracy = .finite s m e hm.pos := by
  have hbounds : m₀ * 2 ^ e₀ ≤ r ∧ r < (m₀ + 1) * 2 ^ e₀ := by
    have hmantissa : (ExtendedMantissa.ofMantissaAndAccuracy m₀ accuracy).mantissa = m₀ := by
      rcases accuracy with _ | (_ | _ | _) <;> rfl
    have hb := h.bounds
    rwa [hmantissa] at hb
  by_cases hbinade : e = -1074 ∨ 2 ^ (52 + e) ≤ r
  · -- the mantissa is rounded at the exponent of the double
    have ht : max (m₀.log2 + e₀ - 52) (-1074) = e :=
      max_log2_eq hbounds.1 hbounds.2 he₀ (hr.lt hm) (hbinade.imp_right fun hlow => ⟨hm.least, hlow⟩)
    rw [roundWithAccuracy, shiftToTargetExponent_eq ht (ht ▸ he₀)]
    dsimp only
    rw [(h.shiftToTargetExponent (ht ▸ he₀)).roundedMantissa_eq hr.nearest,
      shiftToTargetExponent_eq hm.max_log2_eq le_rfl, Int.sub_self]
    exact dif_neg hm.pos.ne'
  · -- it is rounded up to a power of two one place further down
    rw [not_or, not_le] at hbinade
    have hlt : -1074 < e := lt_of_le_of_ne hm.least (Ne.symm hbinade.1)
    obtain ⟨rfl, hlow, hnearest⟩ := hr.nearest_below hlt (hm.full hlt) hbinade.2
    have hhigh : r < 2 ^ (53 + (e - 1)) := by
      rw [show 53 + (e - 1) = 52 + e by omega]
      exact hbinade.2
    have ht : max (m₀.log2 + e₀ - 52) (-1074) = e - 1 :=
      max_log2_eq hbounds.1 hbounds.2 he₀ hhigh (.inr ⟨by omega, hlow⟩)
    have hnext : max ((2 ^ 53).log2 + (e - 1) - 52) (-1074) = e := by
      rw [Nat.log2_two_pow]
      omega
    rw [roundWithAccuracy, shiftToTargetExponent_eq ht (ht ▸ he₀)]
    dsimp only
    rw [(h.shiftToTargetExponent (ht ▸ he₀)).roundedMantissa_eq hnearest,
      shiftToTargetExponent_eq hnext (by omega), Int.sub_sub_self]
    rfl

end Round

end Downhill
