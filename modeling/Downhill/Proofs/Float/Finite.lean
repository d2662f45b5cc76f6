import Downhill.Proofs.Float.Order

/-!
# What spreads through arithmetic

What is no number spreads through sums, differences, products and quotients, and so do infinities but
for one place: what is divided by an infinity is zero.

What is proved: both operands of a result that is a number are numbers (`isNaN_of_add` and so on), and
both operands of a result that is finite are finite, except that the divisor of a quotient need not be
(`isFinite_of_add` and so on).
-/

namespace Downhill

open Float.Model UnpackedFloat

variable {a b : Float}

/-! ### Unpacked operands -/

section Unpacked

variable {u v : UnpackedFloat} {op : UnpackedFloat → UnpackedFloat → UnpackedFloat}

/-- What is not finite is not packed as something finite. -/
theorem isFinite_pack (h : u.isFinite = false) :
    (Float.ofModel (Float.Model.pack u)).isFinite = false := by
  cases u with
  | notANumber => rfl
  | infinity s => cases s <;> rfl
  | zero s => cases h
  | finite s m e hm => cases h

/-- What is no number is packed as none. -/
theorem isNaN_pack (h : u.isNaN = true) : (Float.ofModel (Float.Model.pack u)).isNaN = true := by
  cases u with
  | notANumber => rfl
  | infinity s => cases h
  | zero s => cases h
  | finite s m e hm => cases h

/-- The operations that spread what is not finite. -/
def spreadInfinite : List (UnpackedFloat → UnpackedFloat → UnpackedFloat) :=
  [UnpackedFloat.add .binary64, UnpackedFloat.sub .binary64, UnpackedFloat.mul .binary64]

theorem isFinite_unpacked (hop : op ∈ spreadInfinite) (h : u.isFinite = false ∨ v.isFinite = false) :
    (op u v).isFinite = false := by
  simp only [spreadInfinite, List.mem_cons, List.not_mem_nil, or_false] at hop
  rcases hop with rfl | rfl | rfl <;> rcases u with (_ | _) | _ | _ | _ <;>
    rcases v with (_ | _) | _ | _ | _ <;> first | rfl | (rcases h with h | h <;> cases h)

theorem isFinite_unpacked_div (h : u.isFinite = false) :
    (UnpackedFloat.div .binary64 u v).isFinite = false := by
  rcases u with (_ | _) | _ | _ | _ <;> rcases v with (_ | _) | _ | _ | _ <;> first | rfl | cases h

theorem isNaN_unpacked (hop : op = UnpackedFloat.div .binary64 ∨ op ∈ spreadInfinite)
    (h : u.isNaN = true ∨ v.isNaN = true) : (op u v).isNaN = true := by
  simp only [spreadInfinite, List.mem_cons, List.not_mem_nil, or_false] at hop
  rcases hop with rfl | rfl | rfl | rfl <;> rcases u with (_ | _) | _ | _ | _ <;>
    rcases v with (_ | _) | _ | _ | _ <;> first | rfl | (rcases h with h | h <;> cases h)

/-- A finite result of an operation that spreads what is not finite has finite operands. -/
theorem isFinite_of_op (hop : op ∈ spreadInfinite)
    (h : (Float.ofModel (Float.Model.pack (op a.toModel.unpack b.toModel.unpack))).isFinite = true) :
    a.isFinite = true ∧ b.isFinite = true := by
  by_contra hnot
  rw [not_and_or, Bool.not_eq_true, Bool.not_eq_true] at hnot
  rw [isFinite_pack (isFinite_unpacked hop hnot)] at h
  cases h

/-- A number that comes of an operation comes of numbers. -/
theorem isNaN_of_op (hop : op = UnpackedFloat.div .binary64 ∨ op ∈ spreadInfinite)
    (h : (Float.ofModel (Float.Model.pack (op a.toModel.unpack b.toModel.unpack))).isNaN = false) :
    a.isNaN = false ∧ b.isNaN = false := by
  by_contra hnot
  rw [not_and_or, Bool.not_eq_false, Bool.not_eq_false] at hnot
  rw [isNaN_pack (isNaN_unpacked hop hnot)] at h
  cases h

end Unpacked

/-! ### Results that are finite -/

/-- **The operands of a finite sum are finite.** -/
theorem isFinite_of_add (h : (a + b).isFinite = true) : a.isFinite = true ∧ b.isFinite = true :=
  isFinite_of_op (by simp [spreadInfinite]) h

/-- **The operands of a finite difference are finite.** -/
theorem isFinite_of_sub (h : (a - b).isFinite = true) : a.isFinite = true ∧ b.isFinite = true :=
  isFinite_of_op (by simp [spreadInfinite]) h

/-- **The operands of a finite product are finite.** -/
theorem isFinite_of_mul (h : (a * b).isFinite = true) : a.isFinite = true ∧ b.isFinite = true :=
  isFinite_of_op (by simp [spreadInfinite]) h

/-- **The dividend of a finite quotient is finite.** -/
theorem isFinite_of_div (h : (a / b).isFinite = true) : a.isFinite = true := by
  by_contra hnot
  rw [Bool.not_eq_true] at hnot
  have hpack := isFinite_pack (isFinite_unpacked_div (v := b.toModel.unpack) hnot)
  change (a / b).isFinite = false at hpack
  rw [h] at hpack
  cases hpack

/-- The divisor need not be. -/
example : 1 / infinity = 0 := rfl

/-! ### Results that are numbers -/

/-- **The operands of a sum that is a number are numbers.** -/
theorem isNaN_of_add (h : (a + b).isNaN = false) : a.isNaN = false ∧ b.isNaN = false :=
  isNaN_of_op (by simp [spreadInfinite]) h

/-- **The operands of a difference that is a number are numbers.** -/
theorem isNaN_of_sub (h : (a - b).isNaN = false) : a.isNaN = false ∧ b.isNaN = false :=
  isNaN_of_op (by simp [spreadInfinite]) h

/-- **The operands of a product that is a number are numbers.** -/
theorem isNaN_of_mul (h : (a * b).isNaN = false) : a.isNaN = false ∧ b.isNaN = false :=
  isNaN_of_op (by simp [spreadInfinite]) h

/-- **The operands of a quotient that is a number are numbers.** -/
theorem isNaN_of_div (h : (a / b).isNaN = false) : a.isNaN = false ∧ b.isNaN = false :=
  isNaN_of_op (.inl rfl) h

end Downhill
