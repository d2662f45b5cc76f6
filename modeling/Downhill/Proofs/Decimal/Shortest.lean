import Downhill.Decimal.Layout
import Downhill.Proofs.Float.Scientific

/-!
# Shortest decimals round to their doubles

The search for a shortest decimal starts on a coarse grid of multiples of a power of ten and goes on to
finer ones. On a grid whose neighbouring points are nearer to one another than half the distance of
neighbouring doubles there is always a point that rounds to the double, and the last grid is as fine as
that.

What is proved: the decimal that is found rounds to the double (`shortest_roundsTo`).
-/

namespace Downhill.Decimal

open Float.Model UnpackedFloat

variable {m : ℕ} {e : ℤ}

/-! ### The parts of a double -/

theorem toNat_unpackMantissa (b : BitVec Format.binary64.numBits) :
    (@unpackMantissa .binary64 b).toNat = b.toNat % 2 ^ 52 := by
  rw [unpackMantissa]
  simp

theorem toNat_unpackExponent (b : BitVec Format.binary64.numBits) :
    (@unpackExponent .binary64 b).toNat = b.toNat / 2 ^ 52 % 2048 := by
  rw [unpackExponent]
  simp [Nat.shiftRight_eq_div_pow]

theorem hiddenBit_eq : hiddenBit = 2 ^ 52 := rfl

/-- The magnitude with this mantissa and this exponent. -/
def magnitude (m : ℕ) (e : ℤ) : Magnitude := ⟨m, e, decide (m = 2 ^ 52 ∧ -1074 < e)⟩

/-- The magnitude that is read off the bits is that of the double. -/
theorem magnitude_ofFloat {s : Sign} {hpos : 0 < m} {x : Float}
    (hx : x.toModel.unpack = .finite s m e hpos) : Magnitude.ofFloat x = magnitude m e := by
  have hbias : ((Format.binary64.exponentBias : ℕ) : ℤ) = 1023 := rfl
  have hplaces : ((52 : ℕ) : ℤ) = 52 := rfl
  have hbits : x.toBits.toNat = x.toModel.toBits.toBitVec.toNat := rfl
  have hmantissa := toNat_unpackMantissa x.toModel.toBits.toBitVec
  have hexponent := toNat_unpackExponent x.toModel.toBits.toBitVec
  rw [Float.Model.unpack, UnpackedFloat.unpack] at hx
  rw [Magnitude.ofFloat, hiddenBit_eq, hbits]
  generalize x.toModel.toBits.toBitVec = b at hx hmantissa hexponent ⊢
  dsimp only at hx ⊢
  rw [← hmantissa, ← hexponent]
  split at hx
  · split at hx <;> cases hx
  split at hx
  · next hzero =>
    have hleast : (@unpackExponent .binary64 b).toNat = 0 := by
      rw [hzero]
      rfl
    split at hx
    · cases hx
    · injection hx with hs hm he
      rw [hleast, hbias, hplaces] at he
      subst he hm
      rw [if_pos hleast, magnitude]
      simp
  · next hzero =>
    have hlt : (@unpackMantissa .binary64 b).toNat < 2 ^ 52 := (@unpackMantissa .binary64 b).isLt
    have hleast : (@unpackExponent .binary64 b).toNat ≠ 0 := fun h =>
      hzero (BitVec.eq_of_toNat_eq h)
    have hwhole : (1#1 ++ @unpackMantissa .binary64 b).toNat =
        2 ^ 52 + (@unpackMantissa .binary64 b).toNat := toNat_one_append _
    injection hx with hs hm he
    rw [hbias, hplaces] at he
    rw [hwhole] at hm
    subst he hm
    rw [if_neg hleast, magnitude, ← Bool.decide_and]
    congr 2
    apply propext
    omega

theorem toNat_unpackSign (b : BitVec Format.binary64.numBits) :
    (@unpackSign .binary64 b).toNat = b.toNat / 2 ^ 63 := by
  have hlt : b.toNat < 2 ^ 64 := b.isLt
  rw [unpackSign]
  simp [Nat.shiftRight_eq_div_pow]
  omega

/-- The sign that is read off the bits is that of the double. -/
theorem isSigned_iff {s : Sign} {hpos : 0 < m} {x : Float}
    (hx : x.toModel.unpack = .finite s m e hpos) : isSigned x = true ↔ s = .negative := by
  have hsign := toNat_unpackSign x.toModel.toBits.toBitVec
  have hbits : x.toBits.toNat = x.toModel.toBits.toBitVec.toNat := rfl
  have hplaces : (63 : UInt64).toNat % 64 = 63 := rfl
  have hone : (1 : UInt64).toNat = 1 := rfl
  have hs : s = Sign.ofBitVec (@unpackSign .binary64 x.toModel.toBits.toBitVec) := by
    rw [Float.Model.unpack, UnpackedFloat.unpack] at hx
    dsimp only at hx
    split at hx
    · split at hx <;> cases hx
    split at hx
    · split at hx <;> cases hx
      rfl
    · cases hx
      rfl
  rw [isSigned, beq_iff_eq, ← UInt64.toNat_inj, hs, UInt64.toNat_shiftRight, hplaces, hone, hbits,
    Nat.shiftRight_eq_div_pow, ← hsign, Sign.ofBitVec]
  split
  next hpositive => simp [hpositive]
  next hnegative =>
    have hlt : (@unpackSign .binary64 x.toModel.toBits.toBitVec).toNat < 2 := BitVec.isLt _
    have hne : (@unpackSign .binary64 x.toModel.toBits.toBitVec).toNat ≠ 0 := fun h =>
      hnegative (BitVec.eq_of_toNat_eq h)
    simp only [iff_true]
    omega

/-! ### Grids -/

/-- A power with an exponent that may be negative, by powers with natural ones. -/
theorem pow_toNat_eq {b : ℚ} (hb : b ≠ 0) (k : ℤ) : b ^ k.toNat = b ^ (-k).toNat * b ^ k := by
  rw [← zpow_natCast, ← zpow_natCast, ← zpow_add₀ hb]
  congr 1
  omega

/-- The number that a grid counts for one. -/
def gridOne (e : ℤ) (k : ℤ) : ℚ := 2 ^ (-(e - 2)).toNat * 10 ^ (-k).toNat

theorem gridOne_pos (e k : ℤ) : 0 < gridOne e k := by
  unfold gridOne
  positivity

theorem unit_around (m : ℕ) (e k : ℤ) :
    ((Grid.around (magnitude m e) k).unit : ℚ) = gridOne e k * 10 ^ k := by
  show ((2 ^ (-(e - 2)).toNat * 10 ^ k.toNat : ℕ) : ℚ) = _
  push_cast
  rw [gridOne, pow_toNat_eq (by norm_num : (10 : ℚ) ≠ 0) k, mul_assoc]

/-- Quarters of the last binary place, as a grid counts. -/
theorem quarters_eq (e k : ℤ) (n : ℕ) :
    ((n * (Nat.pow 2 (e - 2).toNat * Nat.pow 10 (-k).toNat) : ℕ) : ℚ) =
      gridOne e k * (n / 4 * 2 ^ e) := by
  show ((n * (2 ^ (e - 2).toNat * 10 ^ (-k).toNat) : ℕ) : ℚ) = _
  have hquarter : (2 : ℚ) ^ e = 4 * 2 ^ (e - 2) := by
    rw [show e = 2 + (e - 2) by omega, two_zpow_add]
    norm_num
  push_cast
  rw [gridOne, pow_toNat_eq two_ne_zero (e - 2), hquarter]
  ring

theorem value_around (m : ℕ) (e k : ℤ) :
    ((Grid.around (magnitude m e) k).value : ℚ) = gridOne e k * (m * 2 ^ e) := by
  refine (quarters_eq e k (4 * m)).trans ?_
  push_cast
  ring

theorem high_around (m : ℕ) (e k : ℤ) :
    ((Grid.around (magnitude m e) k).high : ℚ) = gridOne e k * ((m + 1 / 2) * 2 ^ e) := by
  refine (quarters_eq e k (4 * m + 2)).trans ?_
  push_cast
  ring

theorem low_around (hm : 0 < m) (e k : ℤ) :
    ((Grid.around (magnitude m e) k).low : ℚ) = gridOne e k * ((m - marginBelow m e) * 2 ^ e) := by
  have hquarters : ((4 * m - if decide (m = 2 ^ 52 ∧ -1074 < e) then 1 else 2 : ℕ) : ℚ) / 4 =
      m - marginBelow m e := by
    unfold marginBelow
    by_cases hnarrow : m = 2 ^ 52 ∧ -1074 < e
    · rw [if_pos hnarrow, if_pos (decide_eq_true hnarrow), Nat.cast_sub (by omega)]
      push_cast
      ring
    · rw [if_neg hnarrow, if_neg (by rw [decide_eq_false hnarrow]; exact Bool.false_ne_true),
        Nat.cast_sub (by omega)]
      push_cast
      ring
  rw [← hquarters]
  exact quarters_eq e k _

theorem point_around (m : ℕ) (e k : ℤ) (d : ℕ) :
    ((d * (Grid.around (magnitude m e) k).unit : ℕ) : ℚ) = gridOne e k * (d * 10 ^ k) := by
  rw [Nat.cast_mul, unit_around]
  ring

/-- **A grid holds the decimals that round to its double.** -/
theorem holds_around_iff (hm : 0 < m) (e k : ℤ) (d : ℕ) :
    (Grid.around (magnitude m e) k).holds (d * (Grid.around (magnitude m e) k).unit) = true ↔
      RoundsTo (d * 10 ^ k) m e := by
  have hclosed : (Grid.around (magnitude m e) k).closed = decide (m % 2 = 0) := rfl
  have hpoint := point_around m e k d
  have hlow := low_around hm e k
  have hhigh := high_around m e k
  have hone := gridOne_pos e k
  rw [Grid.holds, hclosed]
  generalize d * (Grid.around (magnitude m e) k).unit = p at hpoint ⊢
  generalize (Grid.around (magnitude m e) k).low = low at hlow ⊢
  generalize (Grid.around (magnitude m e) k).high = high at hhigh ⊢
  by_cases heven : m % 2 = 0
  · simp only [heven, decide_true, if_true, Bool.and_eq_true, decide_eq_true_eq]
    rw [← Nat.cast_le (α := ℚ), ← Nat.cast_le (α := ℚ), hpoint, hlow, hhigh,
      mul_le_mul_iff_right₀ hone, mul_le_mul_iff_right₀ hone]
    exact ⟨fun h => ⟨h.1, h.2, fun _ => heven⟩, fun h => ⟨h.below, h.above⟩⟩
  · simp only [heven, decide_false, Bool.false_eq_true, if_false, Bool.and_eq_true, decide_eq_true_eq]
    rw [← Nat.cast_lt (α := ℚ), ← Nat.cast_lt (α := ℚ), hpoint, hlow, hhigh,
      mul_lt_mul_iff_right₀ hone, mul_lt_mul_iff_right₀ hone]
    refine ⟨fun h => ⟨h.1.le, h.2.le, ?_⟩, fun h => ⟨h.below.lt_of_ne ?_, h.above.lt_of_ne ?_⟩⟩
    · rintro (htie | htie)
      · exact absurd htie h.1.ne'
      · exact absurd htie h.2.ne
    · exact fun htie => heven (h.even (.inl htie.symm))
    · exact fun htie => heven (h.even (.inr htie))

/-! ### The search -/

/-- The next point above the magnitude is enough for a point to be found. -/
theorem Grid.exists_nearest? {g : Grid} (h : g.holds ((g.value / g.unit + 1) * g.unit) = true)
    (tie : Tie) : ∃ d, g.nearest? tie = some d := by
  simp only [Grid.nearest?, h]
  cases g.holds (g.value / g.unit * g.unit) with
  | true => dsimp only; split_ifs <;> exact ⟨_, rfl⟩
  | false => exact ⟨_, rfl⟩

theorem marginBelow_pos (m : ℕ) (e : ℤ) : 0 < marginBelow m e := by
  unfold marginBelow
  split <;> norm_num

/-- Half the distance of doubles is far enough for the next point of a grid. -/
theorem roundsTo_next {k : ℤ} {d : ℕ} (hfine : (10 : ℚ) ^ k < 2 ^ (e - 1))
    (hle : d * 10 ^ k ≤ (m : ℚ) * 2 ^ e) (hlt : (m : ℚ) * 2 ^ e < (d + 1 : ℕ) * 10 ^ k) :
    RoundsTo ((d + 1 : ℕ) * 10 ^ k) m e := by
  have hhalf : (2 : ℚ) ^ (e - 1) = 1 / 2 * 2 ^ e := by
    rw [show e - 1 = -1 + e by omega, two_zpow_add]
    norm_num
  have habove : ((d + 1 : ℕ) : ℚ) * 10 ^ k < (m + 1 / 2) * 2 ^ e := by
    rw [hhalf] at hfine
    push_cast
    linarith
  have hbelow : (m - marginBelow m e) * 2 ^ e < ((d + 1 : ℕ) : ℚ) * 10 ^ k := by
    refine lt_trans ?_ hlt
    exact mul_lt_mul_of_pos_right (sub_lt_self _ (marginBelow_pos m e)) (two_zpow_pos e)
  refine ⟨hbelow.le, habove.le, ?_⟩
  rintro (htie | htie)
  · exact absurd htie hbelow.ne'
  · exact absurd htie habove.ne

/-- **A grid with points nearer than half the distance of doubles has one that rounds to the
double.** -/
theorem exists_nearest?_around (hm : 0 < m) {k : ℤ} (hfine : (10 : ℚ) ^ k < 2 ^ (e - 1))
    (tie : Tie) : ∃ d, (Grid.around (magnitude m e) k).nearest? tie = some d := by
  refine Grid.exists_nearest? ((holds_around_iff hm e k _).mpr ?_) tie
  have hone := gridOne_pos e k
  have hvalue := value_around m e k
  have hpoint := point_around m e k
  have hunit : 0 < (Grid.around (magnitude m e) k).unit := by
    have hpos : (0 : ℚ) < (Grid.around (magnitude m e) k).unit := by
      rw [unit_around]
      exact mul_pos hone (zpow_pos (by norm_num) k)
    exact_mod_cast hpos
  generalize Grid.around (magnitude m e) k = g at hvalue hpoint hunit ⊢
  refine roundsTo_next hfine ?_ ?_
  · refine le_of_mul_le_mul_left ?_ hone
    rw [← hpoint, ← hvalue]
    exact_mod_cast Nat.div_mul_le_self _ _
  · refine lt_of_mul_lt_mul_left ?_ hone.le
    rw [← hpoint, ← hvalue]
    exact_mod_cast Nat.lt_mul_of_div_lt (Nat.lt_succ_self _) hunit

/-- The search ends on a grid with a point, if the last one is fine enough. -/
theorem coarsest_spec (hm : 0 < m) (tie : Tie) {finer : ℕ} {k : ℤ}
    (hfine : (10 : ℚ) ^ (k - finer) < 2 ^ (e - 1)) :
    ∃ d k', coarsest tie (magnitude m e) (finer + 1) k = ⟨d, k'⟩ ∧
      (Grid.around (magnitude m e) k').nearest? tie = some d := by
  induction finer generalizing k with
  | zero =>
    obtain ⟨d, hd⟩ := exists_nearest?_around hm (by simpa using hfine) tie
    exact ⟨d, k, by simp [coarsest, hd], hd⟩
  | succ finer ih =>
    rw [coarsest]
    cases hd : (Grid.around (magnitude m e) k).nearest? tie with
    | some d => exact ⟨d, k, rfl, hd⟩
    | none =>
      refine ih ?_
      rwa [show k - 1 - finer = k - (finer + 1 : ℕ) by push_cast; ring]

/-! ### The last grid -/

/-- The power of ten of the last grid, for a double that is less than the given power of two. -/
def finestExponent (k : ℤ) : ℤ := k * 30103 / 100000 - 18

/-- The last grid is fine enough, told without negative exponents. -/
def isFine (k : ℤ) : Bool :=
  10 ^ (finestExponent k).toNat * 2 ^ (-(k - 54)).toNat <
    2 ^ (k - 54).toNat * 10 ^ (-finestExponent k).toNat

theorem isFine_table : ((List.range 2098).all fun j => isFine (j - 1073)) = true := by
  decide +kernel

/-- **The last grid is fine enough**, whatever the double. -/
theorem finestExponent_lt {k : ℤ} (hlow : -1073 ≤ k) (hhigh : k ≤ 1024) :
    (10 : ℚ) ^ finestExponent k < 2 ^ (k - 54) := by
  have hfine := List.all_eq_true.mp isFine_table (k + 1073).toNat (List.mem_range.mpr (by omega))
  rw [show ((k + 1073).toNat : ℤ) - 1073 = k by omega, isFine, decide_eq_true_eq] at hfine
  have hcast : (10 : ℚ) ^ (finestExponent k).toNat * 2 ^ (-(k - 54)).toNat <
      2 ^ (k - 54).toNat * 10 ^ (-finestExponent k).toNat := by exact_mod_cast hfine
  rw [pow_toNat_eq (by norm_num : (10 : ℚ) ≠ 0) (finestExponent k),
    pow_toNat_eq (two_ne_zero' ℚ) (k - 54)] at hcast
  -- both sides have the powers with negative exponents for factors
  have hten : (0 : ℚ) < 10 ^ (-finestExponent k).toNat := by positivity
  have htwo : (0 : ℚ) < 2 ^ (-(k - 54)).toNat := by positivity
  refine lt_of_mul_lt_mul_left ?_ (mul_pos hten htwo).le
  linarith

/-- **The shortest decimal of a double rounds to it.** -/
theorem shortest_roundsTo (hm : IsMagnitude m e) (tie : Tie) :
    ∃ d k, shortest tie (magnitude m e) = ⟨d, k⟩ ∧ RoundsTo (d * 10 ^ k) m e := by
  have hlog : m.log2 < 53 := (Nat.log2_lt hm.pos.ne').mpr hm.lt
  have hleast := hm.least
  have htop := hm.top
  have hstart : startingExponent (magnitude m e) - (19 : ℕ) =
      finestExponent (e + (m.log2 + 1)) := by
    rw [startingExponent, finestExponent, magnitude]
    push_cast
    ring
  have hfine : (10 : ℚ) ^ (startingExponent (magnitude m e) - (19 : ℕ)) < 2 ^ (e - 1) := by
    rw [hstart]
    refine (finestExponent_lt (by omega) (by omega)).trans_le ?_
    exact zpow_le_zpow_right₀ one_le_two (by omega)
  obtain ⟨d, k, hd, hnearest⟩ := coarsest_spec hm.pos tie hfine
  have hr := (holds_around_iff hm.pos e k d).mp (Grid.holds_of_nearest? hnearest)
  have hne : (magnitude m e).significand ≠ 0 := hm.pos.ne'
  rw [shortest, if_neg hne]
  exact ⟨d, k, hd, hr⟩

/-- A finite double other than zero has a shortest decimal that rounds to it. -/
theorem exists_shortest_ofFloat {s : Sign} {hpos : 0 < m} {x : Float}
    (hx : x.toModel.unpack = .finite s m e hpos) (tie : Tie) :
    ∃ d k, shortest tie (.ofFloat x) = ⟨d, k⟩ ∧ 0 < d ∧ RoundsTo (d * 10 ^ k) m e := by
  have hm := isMagnitude_of_unpack hx
  obtain ⟨d, k, hshortest, hr⟩ := shortest_roundsTo hm tie
  rw [magnitude_ofFloat hx]
  exact ⟨d, k, hshortest, hr.coefficient_pos hm, hr⟩

/-- A finite double is written as its shortest decimal, behind its sign. -/
theorem Layout.toList_write (l : Layout) {x : Float} (hx : x.isFinite = true) :
    (l.write x).toList =
      (if isSigned x then ['-'] else []) ++ l.text (shortest l.tie (.ofFloat x)) := by
  rw [Layout.write, isNaN_of_isFinite hx]
  simp only [Bool.false_eq_true, if_false, hx, if_true]
  exact String.toList_ofList

end Downhill.Decimal
