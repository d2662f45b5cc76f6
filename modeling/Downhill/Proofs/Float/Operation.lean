import Downhill.Proofs.Float.Scientific

/-!
# Operations on doubles

An operation takes doubles and gives the double that is nearest to the number it should give. It does
not round where that number is a double itself, and it overflows where the number is beyond all of
them. A negation is no such operation: it does neither (`ratValue_neg`).
-/

namespace Downhill

/-- An operation on doubles, with its operands. -/
inductive Operation
  /-- A sum. -/
  | add (a b : Float)
  /-- A difference. -/
  | sub (a b : Float)
  /-- A product. -/
  | mul (a b : Float)
  /-- A quotient. -/
  | div (a b : Float)
  /-- A natural number is made a double. -/
  | ofNat (n : ℕ)
  deriving DecidableEq, Repr

namespace Operation

/-- The double that comes of it. -/
def result : Operation → Float
  | add a b => a + b
  | sub a b => a - b
  | mul a b => a * b
  | div a b => a / b
  | ofNat n => Float.ofNat n

/-- The number that should come of it. -/
def exact : Operation → ℚ
  | add a b => ratValue a + ratValue b
  | sub a b => ratValue a - ratValue b
  | mul a b => ratValue a * ratValue b
  | div a b => ratValue a / ratValue b
  | ofNat n => n

/-- It neither rounds nor overflows: what comes of it is finite, and the number that should. -/
def IsExact (op : Operation) : Prop :=
  op.result.isFinite = true ∧ ratValue op.result = op.exact

instance (op : Operation) : Decidable op.IsExact :=
  inferInstanceAs (Decidable (_ ∧ _))

/-- A half is exact, and so is one and a half. Half the way from one to the double behind it has no
double of its own, and twice the greatest double is beyond all of them. -/
example : (mul 1 0.5).IsExact ∧ (add 1 0.5).IsExact ∧ ¬ (add 1 1.1102230246251565e-16).IsExact ∧
    ¬ (mul 1.7976931348623157e308 2).IsExact := by decide +kernel

end Operation

open Float.Model UnpackedFloat

/-- **A negation does not round.** -/
theorem ratValue_neg (a : Float) : ratValue (-a) = -ratValue a := by
  have hneg : (-a).toModel.unpack =
      unpack .binary64 (UnpackedFloat.pack .binary64 a.toModel.unpack.neg) := rfl
  cases h : a.toModel.unpack with
  | finite s m e hpos =>
    rw [ratValue, ratValue, unpack_neg h, h]
    cases s with
    | positive => exact (unpackedValue_negative hpos).trans (by rw [unpackedValue_positive])
    | negative => exact (unpackedValue_positive hpos).trans (by rw [unpackedValue_negative, neg_neg])
  | zero s | infinity s =>
    rw [ratValue, ratValue, hneg, h]
    cases s <;> exact neg_zero.symm
  | notANumber =>
    rw [ratValue, ratValue, hneg, h]
    exact neg_zero.symm

end Downhill
