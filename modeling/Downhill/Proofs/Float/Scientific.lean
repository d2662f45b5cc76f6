import Downhill.Proofs.Float.Rounding

/-!
# Decimals to doubles

A natural number times a power of ten is made a double in one of two ways. If both factors are doubles
themselves, it is their product or their quotient; otherwise it is computed from the exact numbers. Both
ways round once.

What is proved: products and quotients round to the nearest double (`mul_finite_eq`, `div_finite_eq`),
and a decimal that rounds to a double is made that double, whichever way is taken (`ofScientific_eq`).
-/

namespace Downhill

open Float.Model UnpackedFloat

/-! ### Powers of ten -/

/-- The number is this power of ten, with a mantissa that is as large as it can be. -/
def isPowerOfTen (k : ℕ) : UnpackedFloat → Bool
  | .finite .positive m e _ => 2 ^ 52 ≤ m && m * 2 ^ e.toNat = 10 ^ k * 2 ^ (-e).toNat
  | _ => false

theorem isPowerOfTen_table : ((List.range Float.exactlyRepresentablePowersOfTen.size).all fun k =>
    isPowerOfTen k (Float.exactlyRepresentablePowersOfTen.getD k 0).toModel.unpack) = true := by
  decide +kernel

theorem isPowerOfTen_getElem {k : ℕ} (hk : k < Float.exactlyRepresentablePowersOfTen.size) :
    isPowerOfTen k (Float.exactlyRepresentablePowersOfTen[k]).toModel.unpack = true := by
  have h := List.all_eq_true.mp isPowerOfTen_table k (List.mem_range.mpr hk)
  rwa [Array.getD_eq_getD_getElem?, Array.getElem?_eq_getElem hk, Option.getD_some] at h

theorem exists_of_isPowerOfTen {k : ℕ} {u : UnpackedFloat} (h : isPowerOfTen k u = true) :
    ∃ m e hpos, u = .finite .positive m e hpos ∧ 2 ^ 52 ≤ m ∧ (m : ℚ) * 2 ^ e = 10 ^ k := by
  rcases u with _ | _ | _ | ⟨_ | _, m, e, hpos⟩ <;> try contradiction
  simp only [isPowerOfTen, Bool.and_eq_true, decide_eq_true_eq] at h
  obtain ⟨hfull, hvalue⟩ := h
  refine ⟨m, e, hpos, rfl, hfull, ?_⟩
  have hcast : (m : ℚ) * 2 ^ e.toNat = 10 ^ k * 2 ^ (-e).toNat := by exact_mod_cast hvalue
  have hpow : (2 : ℚ) ^ e * 2 ^ (-e).toNat = 2 ^ e.toNat := by
    rw [← zpow_natCast, ← zpow_natCast, ← two_zpow_add]
    congr 1
    omega
  refine mul_right_cancel₀ (pow_ne_zero (-e).toNat (two_ne_zero' ℚ)) ?_
  rw [mul_assoc, hpow, hcast]

/-! ### Packing -/

variable {m : ℕ} {e : ℤ} {s : Sign}

theorem finite_congr {m' : ℕ} {e' : ℤ} (hpos : 0 < m) (hpos' : 0 < m') (hm : m = m') (he : e = e') :
    UnpackedFloat.finite s m e hpos = .finite s m' e' hpos' := by
  subst hm he
  rfl

/-- The parts of a packed double with exponent bits. -/
theorem unpack_packComponents_normal {b : ℕ} (hb : 0 < b) (hb' : b < 2047) (hm : 2 ^ 52 ≤ m)
    (hm' : m < 2 ^ 53) (hpos : 0 < m) :
    unpack .binary64 (packComponents .binary64 s (BitVec.ofNat 11 b) (BitVec.ofNat 52 m)) =
      .finite s m (b - 1075) hpos := by
  have hbits : (BitVec.ofNat 11 b).toNat = b := by
    rw [BitVec.toNat_ofNat]
    omega
  have hnum : BitVec.ofNat 11 b ≠ -1#11 := by
    intro h
    have htop : (BitVec.ofNat 11 b).toNat = 2047 := congrArg BitVec.toNat h
    omega
  have hnonzero : BitVec.ofNat 11 b ≠ 0#11 := by
    intro h
    have hleast : (BitVec.ofNat 11 b).toNat = 0 := congrArg BitVec.toNat h
    omega
  rw [UnpackedFloat.unpack]
  simp only [unpackSign_packComponents, unpackExponent_packComponents,
    unpackMantissa_packComponents, Sign.ofBitVec_toBitVec]
  rw [if_neg hnum, if_neg hnonzero]
  refine finite_congr _ _ ?_ ?_
  · rw [toNat_one_append, BitVec.toNat_ofNat]
    omega
  · rw [hbits]
    show (b : ℤ) - (1023 + 52) = b - 1075
    omega

/-- The parts of a packed double at the least exponent without a leading bit. -/
theorem unpack_packComponents_subnormal (hm : m < 2 ^ 52) (hpos : 0 < m) :
    unpack .binary64 (packComponents .binary64 s 0#11 (BitVec.ofNat 52 m)) =
      .finite s m (-1074) hpos := by
  have hbits : (BitVec.ofNat 52 m).toNat = m := by
    rw [BitVec.toNat_ofNat]
    exact Nat.mod_eq_of_lt hm
  have hnonzero : BitVec.ofNat 52 m ≠ 0#52 := by
    intro h
    have hleast : (BitVec.ofNat 52 m).toNat = 0 := congrArg BitVec.toNat h
    omega
  have hnum : 0#11 ≠ -1#11 := by decide
  rw [UnpackedFloat.unpack]
  simp only [unpackSign_packComponents, unpackExponent_packComponents,
    unpackMantissa_packComponents, Sign.ofBitVec_toBitVec]
  rw [if_neg hnum, if_pos trivial, dif_neg hnonzero]
  exact finite_congr _ _ hbits rfl

/-- **A double comes back as it was packed.** -/
theorem unpack_pack_finite (h : IsMagnitude m e) :
    unpack .binary64 (UnpackedFloat.pack .binary64 (.finite s m e h.pos)) = .finite s m e h.pos := by
  obtain ⟨hpos, hm, hfull, he, htop⟩ := h
  have hplaces : Format.binary64.mantissaBits = 53 := rfl
  have hbias : ((Format.binary64.exponentBias : ℕ) : ℤ) = 1023 := rfl
  have hbits : ((52 : ℕ) : ℤ) = 52 := rfl
  obtain ⟨b, hb, hb'⟩ : ∃ b : ℕ, (e + 1023 + 52).toNat = b ∧ (b : ℤ) = e + 1075 :=
    ⟨_, rfl, by omega⟩
  have hsmall : ¬ 2 ^ 11 ≤ b + 1 := by omega
  rw [UnpackedFloat.pack]
  simp only [hplaces, hbias, hbits, hb]
  rw [if_neg hsmall]
  by_cases hnormal : 2 ^ 52 ≤ m
  · have hlog : m.log2 + 1 = 53 := by
      have := (Nat.le_log2 hpos.ne').mpr hnormal
      have := (Nat.log2_lt hpos.ne').mpr hm
      omega
    rw [if_pos hlog, unpack_packComponents_normal (by omega) (by omega) hnormal hm hpos]
    exact finite_congr _ _ rfl (by omega)
  · have hlog : m.log2 + 1 ≠ 53 := by
      have := (Nat.log2_lt hpos.ne').mpr (not_le.mp hnormal)
      omega
    have hleast : e = -1074 := by
      by_contra hne
      exact hnormal (hfull (lt_of_le_of_ne he (Ne.symm hne)))
    subst hleast
    rw [if_neg hlog]
    exact unpack_packComponents_subnormal (not_le.mp hnormal) hpos

/-! ### Products and quotients -/

variable {r : ℚ} {hpos : 0 < m}

/-- A double rounds to itself. -/
theorem roundsTo_self (m : ℕ) (e : ℤ) : RoundsTo (m * 2 ^ e) m e := by
  have hpos := two_zpow_pos e
  have hmargin : 0 < marginBelow m e := by
    unfold marginBelow
    split <;> norm_num
  refine ⟨?_, ?_, ?_⟩
  · exact mul_le_mul_of_nonneg_right (by linarith) hpos.le
  · exact mul_le_mul_of_nonneg_right (by linarith) hpos.le
  · rintro (h | h) <;> have := mul_right_cancel₀ hpos.ne' h <;> linarith

theorem le_log2_mul {a b : ℕ} (ha : 2 ^ 52 ≤ a) (hb : 0 < b) : 52 ≤ (a * b).log2 := by
  have hab : 2 ^ 52 ≤ a * b := ha.trans (Nat.le_mul_of_pos_right a hb)
  have hne : a * b ≠ 0 := (Nat.lt_of_lt_of_le (Nat.two_pow_pos 52) hab).ne'
  exact (Nat.le_log2 hne).mpr hab

/-- **A product is rounded to the nearest double**, if its mantissa has places enough. -/
theorem mul_finite_eq {m₁ m₂ : ℕ} {e₁ e₂ : ℤ} (h₁ : 0 < m₁) (h₂ : 0 < m₂) (hm : IsMagnitude m e)
    (hr : RoundsTo (m₁ * 2 ^ e₁ * (m₂ * 2 ^ e₂)) m e) (hplaces : 52 ≤ (m₁ * m₂).log2) :
    UnpackedFloat.mul .binary64 (.finite .positive m₁ e₁ h₁) (.finite .positive m₂ e₂ h₂) =
      .finite .positive m e hm.pos := by
  have hexact : (m₁ : ℚ) * 2 ^ e₁ * (m₂ * 2 ^ e₂) / 2 ^ (e₁ + e₂) = (m₁ * m₂ : ℕ) := by
    rw [two_zpow_add, Nat.cast_mul]
    have h₁ := (two_zpow_pos e₁).ne'
    have h₂ := (two_zpow_pos e₂).ne'
    field_simp
  rw [UnpackedFloat.mul]
  refine roundWithAccuracy_eq hr hm ?_ (by omega) _
  rw [hexact]
  exact truncates_exact _

/-- What is left of a division tells how near the quotient is. -/
theorem truncates_accuracyOfFraction (q : ℕ) {rest divisor : ℕ} (h : rest < divisor) :
    Truncates (ExtendedMantissa.ofMantissaAndAccuracy q (accuracyOfFraction rest divisor))
      (q + rest / divisor) := by
  have hdivisor : (0 : ℚ) < divisor := by exact_mod_cast (Nat.zero_le rest).trans_lt h
  have hlt : (rest : ℚ) / divisor < 1 := by
    rw [div_lt_one hdivisor]
    exact_mod_cast h
  rw [accuracyOfFraction]
  split
  next hzero =>
    subst hzero
    simp [Truncates, ExtendedMantissa.ofMantissaAndAccuracy]
  next hrest =>
    have hgt : (0 : ℚ) < rest / divisor := div_pos (by exact_mod_cast Nat.pos_of_ne_zero hrest) hdivisor
    rcases lt_trichotomy (2 * rest) divisor with hhalf | hhalf | hhalf
    · have hcast : (2 : ℚ) * rest < divisor := by exact_mod_cast hhalf
      have hless : (rest : ℚ) / divisor < 1 / 2 := by
        rw [div_lt_iff₀ hdivisor]
        linarith
      rw [compare_lt_iff_lt.mpr hhalf]
      exact ⟨by show (q : ℚ) < _; linarith, by show _ < (q : ℚ) + 1 / 2; linarith⟩
    · have hcast : (2 : ℚ) * rest = divisor := by exact_mod_cast hhalf
      have heq : (rest : ℚ) / divisor = 1 / 2 := by
        rw [div_eq_iff hdivisor.ne']
        linarith
      rw [compare_eq_iff_eq.mpr hhalf, heq]
      rfl
    · have hcast : (divisor : ℚ) < 2 * rest := by exact_mod_cast hhalf
      have hmore : 1 / 2 < (rest : ℚ) / divisor := by
        rw [lt_div_iff₀ hdivisor]
        linarith
      rw [compare_gt_iff_gt.mpr hhalf]
      exact ⟨by show (q : ℚ) + 1 / 2 < _; linarith, by show _ < (q : ℚ) + 1; linarith⟩

/-- The dividend is shifted far enough: the quotient has places enough, or its exponent is the least. -/
theorem le_max_log2_div {m₁ m₂ k : ℕ} {t : ℤ} (h₁ : 0 < m₁) (h₂ : 0 < m₂)
    (hk : -1074 < t → m₂.log2 + 53 ≤ m₁.log2 + k) :
    t ≤ max ((m₁ * 2 ^ k / m₂).log2 + t - 52) (-1074) := by
  by_cases ht : -1074 < t
  · have hlow : 2 ^ (m₁.log2 + k) ≤ m₁ * 2 ^ k := by
      rw [Nat.pow_add]
      exact Nat.mul_le_mul_right _ (Nat.log2_self_le h₁.ne')
    have hhigh : m₂ < 2 ^ (m₂.log2 + 1) := Nat.lt_log2_self
    have hquotient : 2 ^ 52 ≤ m₁ * 2 ^ k / m₂ := by
      rw [Nat.le_div_iff_mul_le h₂]
      calc 2 ^ 52 * m₂ ≤ 2 ^ 52 * 2 ^ (m₂.log2 + 1) := Nat.mul_le_mul_left _ hhigh.le
        _ = 2 ^ (m₂.log2 + 53) := by rw [← Nat.pow_add]; congr 1; omega
        _ ≤ 2 ^ (m₁.log2 + k) := Nat.pow_le_pow_right two_pos (hk ht)
        _ ≤ m₁ * 2 ^ k := hlow
    have hne : m₁ * 2 ^ k / m₂ ≠ 0 := by omega
    have := (Nat.le_log2 hne).mpr hquotient
    omega
  · omega

/-- **A quotient is rounded to the nearest double.** -/
theorem div_finite_eq {m₁ m₂ : ℕ} {e₁ e₂ : ℤ} (h₁ : 0 < m₁) (h₂ : 0 < m₂) (hm : IsMagnitude m e)
    (hr : RoundsTo (m₁ * 2 ^ e₁ / (m₂ * 2 ^ e₂)) m e) :
    UnpackedFloat.div .binary64 (.finite .positive m₁ e₁ h₁) (.finite .positive m₂ e₂ h₂) =
      .finite .positive m e hm.pos := by
  have htarget (a : ℤ) : Format.binary64.targetExponent a = max (a - 53) (-1074) := rfl
  rw [UnpackedFloat.div, divCore]
  simp only [htarget, totalExponent, Nat.shiftLeft_eq]
  generalize ht : min (e₁ - e₂) (max (↑m₁.log2 + 1 + e₁ - (↑m₂.log2 + 1 + e₂) - 53) (-1074)) = t
  obtain ⟨k, hk⟩ : ∃ k : ℕ, e₁ - e₂ - t = k := ⟨(e₁ - e₂ - t).toNat, by omega⟩
  rw [hk, Int.toNat_natCast]
  refine roundWithAccuracy_eq hr hm ?_ (le_max_log2_div h₁ h₂ (by omega)) _
  have hcast : (0 : ℚ) < m₂ := by exact_mod_cast h₂
  -- the shifted dividend, divided
  have hquotient : (m₁ : ℚ) * 2 ^ e₁ / (m₂ * 2 ^ e₂) / 2 ^ t =
      (m₁ * 2 ^ k / m₂ : ℕ) + (m₁ * 2 ^ k % m₂ : ℕ) / m₂ := by
    have hpow : (2 : ℚ) ^ e₁ = 2 ^ k * (2 ^ e₂ * 2 ^ t) := by
      rw [← zpow_natCast, ← two_zpow_add, ← two_zpow_add]
      congr 1
      omega
    have hdivided : ((m₁ * 2 ^ k : ℕ) : ℚ) = m₂ * (m₁ * 2 ^ k / m₂ : ℕ) + (m₁ * 2 ^ k % m₂ : ℕ) := by
      exact_mod_cast (Nat.div_add_mod _ _).symm
    have h₂' := (two_zpow_pos e₂).ne'
    have ht' := (two_zpow_pos t).ne'
    have hsum : ((m₁ * 2 ^ k / m₂ : ℕ) : ℚ) + (m₁ * 2 ^ k % m₂ : ℕ) / m₂ = (m₁ * 2 ^ k : ℕ) / m₂ := by
      rw [hdivided, add_div, mul_div_cancel_left₀ _ hcast.ne']
    rw [hsum, hpow]
    push_cast
    field_simp
  rw [hquotient]
  exact truncates_accuracyOfFraction _ (Nat.mod_lt _ h₂)

/-! ### Decimals -/

theorem two_zpow_le_ten_zpow (k : ℕ) : (2 : ℚ) ^ (k : ℤ) ≤ 10 ^ (k : ℤ) := by
  rw [zpow_natCast, zpow_natCast]
  exact pow_le_pow_left₀ (by norm_num) (by norm_num) k

theorem ten_zpow_le_two_zpow (k : ℕ) : (10 : ℚ) ^ (-(k : ℤ)) ≤ 2 ^ (-(k : ℤ)) := by
  rw [zpow_neg, zpow_neg]
  exact inv_anti₀ (two_zpow_pos k) (two_zpow_le_ten_zpow k)

/-- What rounds to a double is not below half the least one. -/
theorem RoundsTo.ge (hr : RoundsTo r m e) (hm : IsMagnitude m e) : 2 ^ (-1075 : ℤ) ≤ r := by
  have hmargin := marginBelow_le m e
  have hone : (1 : ℚ) ≤ m := by exact_mod_cast hm.pos
  have hhalf : (2 : ℚ) ^ (-1075 : ℤ) = 1 / 2 * 2 ^ (-1074 : ℤ) := by
    rw [show (-1075 : ℤ) = -1 + -1074 by norm_num, two_zpow_add, zpow_neg_one, one_div]
  calc (2 : ℚ) ^ (-1075 : ℤ) = 1 / 2 * 2 ^ (-1074 : ℤ) := hhalf
    _ ≤ (m - marginBelow m e) * 2 ^ e :=
      mul_le_mul (by linarith) (zpow_le_zpow_right₀ one_le_two hm.least) (two_zpow_pos _).le
        (by linarith)
    _ ≤ r := hr.below

/-- What rounds to a double is not zero. -/
theorem RoundsTo.coefficient_pos {n : ℕ} {q : ℚ} (hr : RoundsTo (n * q) m e) (hm : IsMagnitude m e) :
    0 < n := by
  refine Nat.pos_of_ne_zero ?_
  rintro rfl
  have hge := hr.ge hm
  rw [Nat.cast_zero, zero_mul] at hge
  exact absurd hge (two_zpow_pos _).not_ge

/-- A decimal that rounds to a double has no exponent that is out of range. -/
theorem exponent_of_roundsTo {n : ℕ} {k : ℤ} (hm : IsMagnitude m e)
    (hr : RoundsTo (n * 10 ^ k) m e) : ¬ 2 ^ 11 < k ∧ ¬ k < -(2 ^ 11 + n.log2) := by
  have hn := hr.coefficient_pos hm
  constructor
  · intro hk
    obtain ⟨j, rfl⟩ : ∃ j : ℕ, k = j := ⟨k.toNat, by omega⟩
    have hone : (1 : ℚ) ≤ n := by exact_mod_cast hn
    have hge : (2 : ℚ) ^ (j : ℤ) ≤ n * 10 ^ (j : ℤ) :=
      (two_zpow_le_ten_zpow j).trans (le_mul_of_one_le_left (by positivity) hone)
    have := two_zpow_lt.mp (hge.trans_lt (hr.lt hm))
    have := hm.top
    omega
  · intro hk
    obtain ⟨j, rfl⟩ : ∃ j : ℕ, k = -j := ⟨(-k).toNat, by omega⟩
    have hlog : (n : ℚ) < 2 ^ (n.log2 + 1 : ℤ) := by
      have : n < 2 ^ (n.log2 + 1) := Nat.lt_log2_self
      exact_mod_cast this
    have hlt : (n : ℚ) * 10 ^ (-(j : ℤ)) < 2 ^ (n.log2 + 1 + -(j : ℤ)) := by
      rw [two_zpow_add]
      exact mul_lt_mul hlog (ten_zpow_le_two_zpow j) (by positivity) (by positivity)
    have := two_zpow_lt.mp ((hr.ge hm).trans_lt hlt)
    omega

/-- **A decimal that rounds to a double is made that double.** -/
theorem unpacked_ofScientific_eq {n : ℕ} {k : ℤ} (hm : IsMagnitude m e)
    (hr : RoundsTo (n * 10 ^ k) m e) :
    UnpackedFloat.ofScientific .binary64 n k = .finite .positive m e hm.pos := by
  have hn := hr.coefficient_pos hm
  obtain ⟨hhigh, hlow⟩ := exponent_of_roundsTo hm hr
  have hplaces : Format.binary64.mantissaBits = 53 := rfl
  rw [UnpackedFloat.ofScientific, dif_neg hn.ne', if_neg hhigh, if_neg hlow]
  simp only [hplaces]
  split
  next hk =>
    obtain ⟨j, rfl⟩ := Int.eq_ofNat_of_zero_le hk
    have hvalue : ((n <<< 53 : ℕ) : ℚ) * 2 ^ (-(53 : ℕ) : ℤ) * ((10 ^ j : ℕ) * 2 ^ (0 : ℤ)) =
        n * 10 ^ (j : ℤ) := by
      have hshift : (2 : ℚ) ^ 53 * 2 ^ (-(53 : ℕ) : ℤ) = 1 := by norm_num
      rw [Nat.shiftLeft_eq, Nat.cast_mul, Nat.cast_pow, Nat.cast_pow, zpow_natCast, Nat.cast_ofNat,
        mul_assoc (n : ℚ), hshift, zpow_zero, mul_one, mul_one, Nat.cast_ofNat]
    have hfull : 2 ^ 52 ≤ n <<< 53 := by
      rw [Nat.shiftLeft_eq]
      exact (Nat.pow_le_pow_right two_pos (by decide)).trans (Nat.le_mul_of_pos_left _ hn)
    rw [← hvalue] at hr
    exact mul_finite_eq _ _ hm hr (le_log2_mul hfull (Nat.pow_pos (by decide)))
  next hk =>
    obtain ⟨j, rfl⟩ : ∃ j : ℕ, k = -j := ⟨(-k).toNat, by omega⟩
    have hvalue : (n : ℚ) * 2 ^ (0 : ℤ) / ((10 ^ (-(-(j : ℤ))).toNat : ℕ) * 2 ^ (0 : ℤ)) =
        n * 10 ^ (-(j : ℤ)) := by
      rw [neg_neg, Int.toNat_natCast, zpow_neg, zpow_natCast, Nat.cast_pow, Nat.cast_ofNat, zpow_zero,
        mul_one, mul_one, div_eq_mul_inv]
    rw [← hvalue] at hr
    exact div_finite_eq _ _ hm hr

/-! ### Doubles by their magnitude -/

variable {x y : Float}

/-- The exponent is at most the greatest one. -/
def ExponentInRange : UnpackedFloat → Prop
  | .finite _ _ e _ => e ≤ 971
  | _ => True

theorem exponentInRange_unpack (x : Float) : ExponentInRange x.toModel.unpack := by
  have hbias : ((Format.binary64.exponentBias : ℕ) : ℤ) = 1023 := rfl
  have hbits : ((Format.binary64.mantissaBitsWithoutImplicit : ℕ) : ℤ) = 52 := rfl
  rw [Float.Model.unpack, UnpackedFloat.unpack]
  generalize x.toModel.toBits.toBitVec = b
  have hlt : (@unpackExponent .binary64 b).toNat < 2048 := (@unpackExponent .binary64 b).isLt
  dsimp only
  split
  · split <;> trivial
  split
  · next hexponent =>
    have hzero : (@unpackExponent .binary64 b).toNat = 0 := by
      rw [hexponent]
      rfl
    split
    · trivial
    · show _ ≤ (971 : ℤ)
      rw [hzero, hbias, hbits]
      decide
  · next hinfinite _ =>
    have hne : (@unpackExponent .binary64 b).toNat ≠ 2047 := fun h =>
      hinfinite (BitVec.eq_of_toNat_eq h)
    show _ ≤ (971 : ℤ)
    rw [hbias, hbits]
    omega

/-- A finite double other than zero has a magnitude. -/
theorem isMagnitude_of_unpack (hx : x.toModel.unpack = .finite s m e hpos) : IsMagnitude m e := by
  have hcanonical := canonical_unpack x
  have hrange := exponentInRange_unpack x
  rw [hx] at hcanonical hrange
  exact ⟨hpos, hcanonical.1, hcanonical.2.2, hcanonical.2.1, hrange⟩

/-- Finite doubles other than zero are known by their parts. -/
theorem eq_of_unpack_eq (hx : x.toModel.unpack = .finite s m e hpos)
    (hy : y.toModel.unpack = .finite s m e hpos) : x = y := by
  have hfinite {z : Float} (hz : z.toModel.unpack = .finite s m e hpos) : z.isNaN = false := by
    refine isNaN_of_unpack_ne_notANumber ?_
    rw [hz]
    exact UnpackedFloat.noConfusion
  have hbeq : (x == y) = true := by
    rw [beq_iff_standing (hfinite hx) (hfinite hy), standing, standing, hx, hy]
  rw [Float.beq_iff_ne_nan_and_eq] at hbeq
  -- neither is a zero
  obtain ⟨-, -, h | ⟨rfl, -⟩ | ⟨rfl, -⟩⟩ := hbeq
  · exact h
  · cases hx
  · cases hx

/-- A packed magnitude is the double that has it. -/
theorem ofModel_pack_eq {u : UnpackedFloat} (hx : x.toModel.unpack = .finite s m e hpos)
    (hu : u = .finite s m e hpos) : Float.ofModel (Float.Model.pack u) = x := by
  refine eq_of_unpack_eq ?_ hx
  rw [hu]
  exact unpack_pack_finite (isMagnitude_of_unpack hx)

/-- The negative of a double has the other sign. -/
theorem unpack_neg (hx : x.toModel.unpack = .finite s m e hpos) :
    (-x).toModel.unpack = .finite (-s) m e hpos := by
  have hneg : (-x).toModel.unpack =
      unpack .binary64 (UnpackedFloat.pack .binary64 x.toModel.unpack.neg) := rfl
  rw [hneg, hx]
  exact unpack_pack_finite (isMagnitude_of_unpack hx)

/-- There are two zeros. -/
theorem eq_zero_or_eq_neg_zero (hx : x.toModel.unpack = .zero s) : x = 0 ∨ x = -0 := by
  have hnum : x.isNaN = false := by
    refine isNaN_of_unpack_ne_notANumber ?_
    rw [hx]
    exact UnpackedFloat.noConfusion
  have hbeq : (x == 0) = true := by
    rw [beq_iff_standing hnum rfl, standing, standing, hx]
    rfl
  rw [Float.beq_iff_ne_nan_and_eq] at hbeq
  obtain ⟨-, -, h | ⟨h, -⟩ | ⟨h, -⟩⟩ := hbeq
  · exact .inl h
  · exact .inl h
  · exact .inr h

/-- A finite double is a zero or has a magnitude. -/
theorem zero_or_finite_of_isFinite (hx : x.isFinite = true) :
    (x = 0 ∨ x = -0) ∨ ∃ s m e hpos, x.toModel.unpack = .finite s m e hpos := by
  change x.toModel.unpack.isFinite = true at hx
  cases hunpack : x.toModel.unpack with
  | notANumber | infinity =>
    rw [hunpack] at hx
    cases hx
  | zero s => exact .inl (eq_zero_or_eq_neg_zero hunpack)
  | finite s m e hpos => exact .inr ⟨s, m, e, hpos, rfl⟩

/-! ### Numerals -/

/-- A natural number with no more places than a mantissa is a double. -/
theorem exists_ofNat_eq {n : ℕ} (hn : 0 < n) (hlt : n < 2 ^ 53) :
    ∃ m e, ∃ hm : IsMagnitude m e, UnpackedFloat.ofNat .binary64 n = .finite .positive m e hm.pos ∧
      2 ^ 52 ≤ m ∧ (m : ℚ) * 2 ^ e = n := by
  have hlog : n.log2 < 53 := (Nat.log2_lt hn.ne').mpr hlt
  obtain ⟨k, hk⟩ : ∃ k : ℕ, n.log2 + k = 52 := ⟨52 - n.log2, by omega⟩
  have hlow : 2 ^ 52 ≤ n * 2 ^ k := by
    rw [← hk, Nat.pow_add]
    exact Nat.mul_le_mul_right _ (Nat.log2_self_le hn.ne')
  have hhigh : n * 2 ^ k < 2 ^ 53 := by
    rw [show 53 = n.log2 + 1 + k by omega, Nat.pow_add]
    exact Nat.mul_lt_mul_of_pos_right Nat.lt_log2_self (Nat.two_pow_pos k)
  have hm : IsMagnitude (n * 2 ^ k) (-k) :=
    ⟨(Nat.two_pow_pos 52).trans_le hlow, hhigh, fun _ => hlow, by omega, by omega⟩
  refine ⟨_, _, hm, ?_, hlow, ?_⟩
  · have htarget : Format.binary64.targetExponent (totalExponent n 0) = -k := by
      rw [targetExponent_eq]
      omega
    rw [UnpackedFloat.ofNat, UnpackedFloat.ofInt, UnpackedFloat.normalize,
      compare_gt_iff_gt.mpr (Int.natCast_pos.mpr hn)]
    dsimp only
    rw [UnpackedFloat.round, Int.toNat_natCast, htarget, decreaseExponent]
    simp only [zero_sub, neg_neg, Int.toNat_natCast, Nat.shiftLeft_eq]
    refine roundWithAccuracy_eq (roundsTo_self _ _) hm ?_ ?_ _
    · rw [mul_div_cancel_right₀ _ (two_zpow_pos _).ne']
      exact truncates_exact _
    · rw [hm.max_log2_eq]
  · have hpow : (2 : ℚ) ^ k * 2 ^ (-(k : ℤ)) = 1 := by
      rw [← zpow_natCast, ← two_zpow_add, add_neg_cancel, zpow_zero]
    rw [Nat.cast_mul, Nat.cast_pow, Nat.cast_ofNat, mul_assoc, hpow, mul_one]

theorem exists_unpack_toFloat {n : ℕ} (hn : 0 < n) (hlt : n < 2 ^ 53) :
    ∃ m e hpos, n.toUInt64.toFloat.toModel.unpack = .finite .positive m e hpos ∧
      2 ^ 52 ≤ m ∧ (m : ℚ) * 2 ^ e = n := by
  obtain ⟨m, e, hm, hnat, hfull, hvalue⟩ := exists_ofNat_eq hn hlt
  have hword : n.toUInt64.toNat = n := Nat.mod_eq_of_lt (hlt.trans (by decide))
  refine ⟨m, e, hm.pos, ?_, hfull, hvalue⟩
  change unpack .binary64 (UnpackedFloat.pack .binary64
    (UnpackedFloat.ofNat .binary64 n.toUInt64.toNat)) = _
  rw [hword, hnat]
  exact unpack_pack_finite hm

/-- **The double nearest to a decimal**: a decimal that rounds to a double is read as that double. -/
theorem ofScientific_eq (hx : x.toModel.unpack = .finite .positive m e hpos) {n k : ℕ}
    {negative : Bool} (hr : RoundsTo (n * 10 ^ (if negative then -(k : ℤ) else k)) m e) :
    Float.ofScientific n negative k = x := by
  have hm := isMagnitude_of_unpack hx
  have hn := hr.coefficient_pos hm
  rw [Float.ofScientific]
  split
  next hsmall =>
    obtain ⟨m₁, e₁, h₁, hnat, hfull, hvalue⟩ := exists_unpack_toFloat hn hsmall.1
    obtain ⟨m₂, e₂, h₂, hpower, -, hten⟩ :=
      exists_of_isPowerOfTen (isPowerOfTen_getElem (Nat.lt_succ_of_le hsmall.2))
    cases negative with
    | true =>
      have hquotient : (n : ℚ) * 10 ^ (-(k : ℤ)) = m₁ * 2 ^ e₁ / (m₂ * 2 ^ e₂) := by
        rw [hvalue, hten, zpow_neg, zpow_natCast, div_eq_mul_inv]
      rw [if_pos rfl, hquotient] at hr
      exact ofModel_pack_eq hx ((congrArg₂ (UnpackedFloat.div .binary64) hnat hpower).trans
        (div_finite_eq h₁ h₂ hm hr))
    | false =>
      have hproduct : (n : ℚ) * 10 ^ (k : ℤ) = m₁ * 2 ^ e₁ * (m₂ * 2 ^ e₂) := by
        rw [hvalue, hten, zpow_natCast]
      rw [if_neg Bool.false_ne_true, hproduct] at hr
      exact ofModel_pack_eq hx ((congrArg₂ (UnpackedFloat.mul .binary64) hnat hpower).trans
        (mul_finite_eq h₁ h₂ hm hr (le_log2_mul hfull h₂)))
  next hlarge =>
    refine ofModel_pack_eq hx (unpacked_ofScientific_eq hm ?_)
    cases negative with
    | true => simpa [Int.negOfNat_eq] using hr
    | false => simpa using hr

end Downhill
