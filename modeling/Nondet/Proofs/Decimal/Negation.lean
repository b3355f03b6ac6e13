import Mathlib

/-!
# Decimal — Negation

Negating a number twice gives the number.  A number is packed into bits, and to negate it is to unpack
it, to turn its sign and to pack it again; the sign is a bit of its own, so turning it changes nothing
else of what is packed (`unpack_packComponents_neg`).
-/

namespace Nondet.Decimal

open Float.Model (Format UnpackedFloat)
open Float.Model.UnpackedFloat

variable {spec : Format}

theorem neg_neg_unpacked (u : UnpackedFloat) : u.neg.neg = u := by
  have signs : ∀ s : Sign, -(-s) = s := by
    intro s
    cases s <;> rfl
  cases u <;> simp [UnpackedFloat.neg, signs]

/-- The sign is packed apart from the exponent and the mantissa. -/
theorem unpack_packComponents_neg (s : Sign) (exponent : BitVec spec.exponentBits)
    (mantissa : BitVec spec.mantissaBitsWithoutImplicit) :
    UnpackedFloat.unpack spec (packComponents spec (-s) exponent mantissa) =
      (UnpackedFloat.unpack spec (packComponents spec s exponent mantissa)).neg := by
  simp only [UnpackedFloat.unpack, unpackSign_packComponents, unpackExponent_packComponents,
    unpackMantissa_packComponents, Sign.ofBitVec_toBitVec]
  split
  · split <;> rfl
  · split
    · split <;> rfl
    · rfl

/-- Packing loses the same of a number and of its negation. -/
theorem unpack_pack_neg (u : UnpackedFloat) :
    UnpackedFloat.unpack spec (u.neg.pack spec) = (UnpackedFloat.unpack spec (u.pack spec)).neg := by
  cases u with
  | notANumber =>
      have same : UnpackedFloat.unpack spec (packedNaN spec) = .notANumber := unpack_packedNaN
      simp only [UnpackedFloat.neg, UnpackedFloat.pack, same]
  | infinity s | zero s => exact unpack_packComponents_neg s _ _
  | finite s mantissa exponent positive =>
      simp only [UnpackedFloat.neg, UnpackedFloat.pack]
      split
      · exact unpack_packComponents_neg s _ _
      · split <;> exact unpack_packComponents_neg s _ _

/-- **Negating a number twice gives the number.** -/
theorem neg_neg_float (x : Float) : -(-x) = x := by
  obtain ⟨⟨bits, valid⟩⟩ := x
  have whole : (UnpackedFloat.unpack .binary64 bits.toBitVec).pack .binary64 = bits.toBitVec :=
    pack_unpack_of_valid valid
  have twice : UnpackedFloat.pack .binary64 (UnpackedFloat.unpack .binary64
      ((UnpackedFloat.unpack .binary64 bits.toBitVec).neg.pack .binary64)).neg = bits.toBitVec := by
    rw [unpack_pack_neg, neg_neg_unpacked, whole, whole]
  exact congrArg Float.ofModel (Float.Model.mk.injEq .. ▸ UInt64.toBitVec_inj.mp twice)

end Nondet.Decimal
