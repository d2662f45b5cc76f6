import Downhill.Decimal.Layout
import Downhill.Proofs.Json.Numeral
import Mathlib.Algebra.Order.Field.Rat
import Mathlib.Tactic.FieldSimp
import Mathlib.Tactic.Positivity
import Mathlib.Tactic.Ring

/-!
# What written decimals say

A decimal is laid out as digits before and behind a point, with an exponent or without one. However the
point is set, the digits and the exponent make up the decimal that was laid out (`decimalValue`).

What is proved: this, for texts without an exponent (`exists_positionalText`) and for texts with one
(`exists_scientificText`).
-/

namespace Downhill.Decimal

open Json (AreDigits IsWhole SpellsExponent areDigits_digits isWhole_digits natOfDigits_digits
  eq_zero_of_digits_eq)

/-- The number that digits before and behind a point and an exponent are. -/
def decimalValue (whole fraction : List Char) (exponent : ℤ) : ℚ :=
  natOfDigits (natOfDigits 0 whole) fraction * 10 ^ (exponent - fraction.length)

/-! ### Digits -/

theorem natOfDigits_zeros (n k : ℕ) : natOfDigits n (List.replicate k '0') = n * 10 ^ k := by
  induction k generalizing n with
  | zero => exact (Nat.mul_one n).symm
  | succ k ih =>
    rw [List.replicate_succ, natOfDigits, List.foldl_cons]
    refine (ih _).trans ?_
    rw [Nat.sub_self, Nat.add_zero, Nat.pow_succ]
    ring

/-- A fraction behind a point, which is left out where there is none. -/
def pointText : List Char → List Char
  | [] => []
  | c :: cs => '.' :: c :: cs

/-! ### No exponent -/

variable {d : ℕ}

/-- Only zero has digits that begin with zero, and zeros behind it are needless. -/
theorem isWhole_digits_append {cs : List Char} (hcs : ∀ c ∈ cs, isDigit c = true)
    (hzero : d = 0 → cs = []) : IsWhole (digits d ++ cs) := by
  obtain ⟨hne, hall⟩ := areDigits_digits d
  refine ⟨⟨List.append_ne_nil_of_left_ne_nil hne cs, ?_⟩, ?_⟩
  · intro c hc
    exact (List.mem_append.mp hc).elim (hall c) (hcs c)
  · intro rest h
    obtain ⟨c, ds, hds⟩ := List.exists_cons_of_ne_nil hne
    rw [digits, hds, List.cons_append, List.cons.injEq] at h
    rw [h.1] at hds
    have hd := eq_zero_of_digits_eq hds
    rw [hzero hd, List.append_nil] at h
    rw [← h.2]
    exact (isWhole_digits d).2 ds hds

/-- Some digits of a whole number, from the first on, are one. -/
theorem isWhole_of_append {ds cs : List Char} (h : IsWhole (ds ++ cs)) (hne : ds ≠ []) :
    IsWhole ds := by
  refine ⟨⟨hne, fun c hc => h.1.2 c (List.mem_append_left cs hc)⟩, ?_⟩
  rintro rest rfl
  have hrest : rest ++ cs = [] := h.2 (rest ++ cs) (List.cons_append ..)
  exact (List.append_eq_nil_iff.mp hrest).1

theorem isWhole_zero : IsWhole ['0'] := isWhole_digits 0

theorem isDigit_zeros (k : ℕ) : ∀ c ∈ List.replicate k '0', isDigit c = true := by
  intro c hc
  rw [List.eq_of_mem_replicate hc]
  decide

theorem decimalValue_zeros (d k j : ℕ) :
    decimalValue (digits d ++ List.replicate k '0') (List.replicate j '0') 0 = d * 10 ^ (k : ℤ) := by
  have hdigits : natOfDigits 0 (digits d) = d := natOfDigits_digits d
  rw [decimalValue, natOfDigits_append, hdigits, natOfDigits_zeros, natOfDigits_zeros,
    List.length_replicate, zero_sub, zpow_neg, zpow_natCast, zpow_natCast]
  push_cast
  field_simp

theorem decimalValue_negSucc {whole fraction : List Char} {k : ℕ}
    (hdigits : natOfDigits 0 (whole ++ fraction) = d) (hlength : fraction.length = k + 1) :
    decimalValue whole fraction 0 = d * 10 ^ Int.negSucc k := by
  rw [decimalValue, ← natOfDigits_append, hdigits, hlength, zero_sub]
  rfl

/-- **A decimal without an exponent is what its digits say.** -/
theorem exists_positionalText (pointed : Bool) {k : ℤ} (hzero : d = 0 → k = 0) :
    ∃ whole fraction, positionalText pointed (digits d) k = whole ++ pointText fraction ∧
      IsWhole whole ∧ (∀ c ∈ fraction, isDigit c = true) ∧ (pointed = true → fraction ≠ []) ∧
      decimalValue whole fraction 0 = d * 10 ^ k := by
  obtain ⟨hne, hall⟩ := areDigits_digits d
  have hdigits : natOfDigits 0 (digits d) = d := natOfDigits_digits d
  have hlength : 0 < (digits d).length := List.length_pos_iff.mpr hne
  cases k with
  | ofNat k =>
    have hwhole : IsWhole (digits d ++ List.replicate k '0') := by
      refine isWhole_digits_append (isDigit_zeros k) fun hd => ?_
      rw [show k = 0 from Int.ofNat.inj (hzero hd), List.replicate_zero]
    cases pointed with
    | true =>
      exact ⟨_, List.replicate 1 '0', rfl, hwhole, isDigit_zeros 1, fun _ => by simp,
        decimalValue_zeros d k 1⟩
    | false =>
      exact ⟨_, List.replicate 0 '0', rfl, hwhole, isDigit_zeros 0, Bool.false_ne_true.elim,
        decimalValue_zeros d k 0⟩
  | negSucc k =>
    simp only [positionalText]
    split
    next hlt =>
      -- the point stands among the digits
      generalize hj : (digits d).length - (k + 1) = j
      have htake : (digits d).take j ≠ [] := by
        rw [← List.length_pos_iff, List.length_take]
        omega
      have hdrop : ((digits d).drop j).length = k + 1 := by
        rw [List.length_drop]
        omega
      have hwhole : IsWhole ((digits d).take j ++ (digits d).drop j) := by
        rw [List.take_append_drop]
        exact isWhole_digits d
      refine ⟨(digits d).take j, (digits d).drop j, ?_, isWhole_of_append hwhole htake, ?_, ?_, ?_⟩
      · obtain ⟨c, fraction, hfraction⟩ :=
          List.exists_cons_of_ne_nil (List.ne_nil_of_length_eq_add_one hdrop)
        rw [hfraction]
        rfl
      · exact fun c hc => hall c (List.mem_of_mem_drop hc)
      · exact fun _ => List.ne_nil_of_length_eq_add_one hdrop
      · exact decimalValue_negSucc (by rw [List.take_append_drop, hdigits]) hdrop
    next hge =>
      -- there are zeros between the point and the digits
      generalize hj : k + 1 - (digits d).length = j
      have hfraction : (List.replicate j '0' ++ digits d).length = k + 1 := by
        rw [List.length_append, List.length_replicate]
        omega
      refine ⟨['0'], List.replicate j '0' ++ digits d, ?_, isWhole_zero, ?_, ?_, ?_⟩
      · obtain ⟨c, fraction, hcons⟩ :=
          List.exists_cons_of_ne_nil (List.ne_nil_of_length_eq_add_one hfraction)
        rw [hcons]
        rfl
      · exact fun c hc => (List.mem_append.mp hc).elim (isDigit_zeros j c) (hall c)
      · exact fun _ => List.ne_nil_of_length_eq_add_one hfraction
      · refine decimalValue_negSucc ?_ hfraction
        rw [← List.append_assoc]
        show natOfDigits 0 (List.replicate (j + 1) '0' ++ digits d) = d
        rw [natOfDigits_append, natOfDigits_zeros, Nat.zero_mul, hdigits]

/-! ### An exponent -/

theorem spellsExponent_toString (signed : Bool) (k : ℤ) :
    SpellsExponent ('e' :: ((if signed && 0 ≤ k then ['+'] else []) ++ (toString k).toList))
      (some k) := by
  rw [Int.toString_eq_repr, Int.repr_eq_if]
  by_cases hk : 0 ≤ k
  · have hvalue : (natOfDigits 0 (Nat.toDigits 10 k.toNat) : ℤ) = k := by
      rw [natOfDigits_digits, Int.toNat_of_nonneg hk]
    rw [if_pos hk, Nat.toList_repr, decide_eq_true hk, Bool.and_true]
    cases signed with
    | true =>
      have h := SpellsExponent.plus (.inl rfl) (areDigits_digits k.toNat)
      rwa [hvalue] at h
    | false =>
      have h := SpellsExponent.unsigned (.inl rfl) (areDigits_digits k.toNat)
      rwa [hvalue] at h
  · have hvalue : -(natOfDigits 0 (Nat.toDigits 10 (-k).toNat) : ℤ) = k := by
      rw [natOfDigits_digits, Int.toNat_of_nonneg (by omega), neg_neg]
    rw [if_neg hk, String.toList_append, Nat.toList_repr, decide_eq_false hk, Bool.and_false]
    have h := SpellsExponent.minus (.inl rfl) (areDigits_digits (-k).toNat)
    rwa [hvalue] at h

/-- **A decimal with an exponent is what its digits and its exponent say.** -/
theorem exists_scientificText (signed : Bool) (k : ℤ) :
    ∃ whole fraction exponentText exponent,
      scientificText signed (digits d) (k + ((digits d).length - 1 : ℕ)) =
        whole ++ (pointText fraction ++ exponentText) ∧
      IsWhole whole ∧ (∀ c ∈ fraction, isDigit c = true) ∧
      SpellsExponent exponentText (some exponent) ∧
      decimalValue whole fraction exponent = d * 10 ^ k := by
  obtain ⟨hne, hall⟩ := areDigits_digits d
  have hdigits : natOfDigits 0 (digits d) = d := natOfDigits_digits d
  have hwhole : IsWhole (digits d) := isWhole_digits d
  obtain ⟨c, ds, hds⟩ : ∃ c ds, digits d = c :: ds := List.exists_cons_of_ne_nil hne
  rw [hds] at hdigits hwhole ⊢
  refine ⟨[c], ds, _, k + ((c :: ds).length - 1 : ℕ), ?_,
    isWhole_of_append hwhole (List.cons_ne_nil c []), ?_, spellsExponent_toString signed _, ?_⟩
  · cases ds <;> rfl
  · exact fun x hx => hwhole.1.2 x (List.mem_cons_of_mem c hx)
  · rw [decimalValue, ← natOfDigits_append, List.singleton_append, hdigits, List.length_cons,
      Nat.add_sub_cancel, add_sub_cancel_right]

end Downhill.Decimal
