import CoinSpend.Curve.Group
import CoinSpend.Proofs.Curve.Generator
import CoinSpend.Proofs.Outcome
import CoinSpend.Proofs.Wire.Reads

/-!
# Reading written public keys

The compressed form of a point keeps its x coordinate and the parity of its y coordinate. The
modulus `p` is 3 modulo 4, so a power of `x³ + 7` is the y coordinate up to its sign, and since `p`
is odd, the two signs differ in parity.

Results:
* `Secp256k1.sqrt_mul_self`: the root of a square, up to its sign.
* `Point.ofAbscissa_ofZMod`: a point from its x coordinate and the parity of its y coordinate.
* `Point.ofSec_compressed`: the compressed form is read back.
-/

namespace CoinSpend

open Secp256k1 (p)
open WeierstrassCurve (Affine)

/-! ## Square roots -/

namespace Secp256k1

theorem pow_quarter_mul_self (y : ZMod p) :
    (y * y) ^ ((p + 1) / 4) = y ∨ (y * y) ^ ((p + 1) / 4) = -y := by
  have hexponent : 2 * ((p + 1) / 4 + (p + 1) / 4) = p + 1 := by decide
  have hsquare : (y * y) ^ ((p + 1) / 4) * (y * y) ^ ((p + 1) / 4) = y * y := by
    rw [← pow_add, ← pow_two, ← pow_mul, hexponent, pow_succ, ZMod.pow_card, pow_two]
  exact mul_self_eq_mul_self_iff.mp hsquare

/-- The root of a square is what was squared, up to its sign. -/
theorem sqrt_mul_self (y : ZMod p) :
    sqrt (.ofZMod (y * y)) = .ofZMod y ∨ sqrt (.ofZMod (y * y)) = .ofZMod (-y) := by
  have hexponent : (p + 1) / 4 % (p - 1) = (p + 1) / 4 := by decide
  rw [sqrt, FieldElement.ofZMod_powNat, hexponent]
  rcases pow_quarter_mul_self y with h | h
  · left
    rw [h]
  · right
    rw [h]

/-- A residue and its negative differ in parity. -/
theorem odd_val_neg_iff {y : ZMod p} (hy : y ≠ 0) : (-y).val % 2 = 1 ↔ ¬ y.val % 2 = 1 := by
  have hp : p % 2 = 1 := by decide
  have hlt : y.val < p := y.val_lt
  have hval : (-y).val = p - y.val := by
    rw [ZMod.neg_val, if_neg hy]
  omega

end Secp256k1

/-! ## Points from their x coordinate -/

namespace Point

/-- A point is found from its x coordinate and the parity of its y coordinate. -/
theorem ofAbscissa_ofZMod {x y : ZMod p} (h : y * y = x * x * x + 0 * x + 7) :
    ofAbscissa (y.val % 2 = 1) x.val = .ok (affine Secp256k1.curve (.ofZMod x) (.ofZMod y)) := by
  have hfield : Secp256k1.field x.val = .ok (.ofZMod x) := FieldElement.ofNat_val x
  have hsquare : x * x * x + 7 = y * y := by
    rw [h]
    ring
  have hb : Secp256k1.curve.b = .ofZMod 7 := congrArg Curve.b Secp256k1.curve_eq
  have hpoint := ofCoordinates_ofZMod h
  rw [← Secp256k1.curve_eq] at hpoint
  unfold ofAbscissa
  rw [hfield]
  simp only [ok_bind, hb, FieldElement.ofZMod_mul, FieldElement.ofZMod_add, hsquare]
  rcases Secp256k1.sqrt_mul_self y with hroot | hroot
  · rw [hroot, FieldElement.ofZMod_mul, ok_bind, if_pos rfl, if_pos (by simp)]
    exact hpoint
  · rw [hroot, FieldElement.ofZMod_mul, ok_bind, neg_mul_neg, if_pos rfl]
    by_cases hy : y = 0
    · subst hy
      rw [neg_zero, if_pos (by simp)]
      exact hpoint
    · have hparity : ¬ (((FieldElement.ofZMod (-y)).num % 2 = 1) =
          (decide (y.val % 2 = 1) = true)) := by
        rw [FieldElement.num_ofZMod, eq_iff_iff, decide_eq_true_eq, Secp256k1.odd_val_neg_iff hy]
        tauto
      rw [if_neg hparity, FieldElement.zeroOf_ofZMod, FieldElement.ofZMod_sub, ok_bind, zero_sub,
        neg_neg]
      exact hpoint

/-! ## The compressed form -/

/-- The compressed form of a point. -/
def compressed (x y : ZMod p) : Bytes :=
  (if y.val % 2 = 1 then 0x03 else 0x02) :: Bytes.ofNatBE 32 x.val

theorem val_lt_pow (x : ZMod p) : x.val < 256 ^ 32 :=
  x.val_lt.trans (by decide)

theorem toNatBE_coordinate (x : ZMod p) : Bytes.toNatBE (Bytes.ofNatBE 32 x.val) = x.val := by
  rw [Bytes.toNatBE_ofNatBE, Nat.mod_eq_of_lt (val_lt_pow x)]

theorem writeBE_coordinate (x : ZMod p) :
    Wire.writeBE 32 x.val = .ok (FixedBytes.ofNatBE 32 x.val) :=
  Wire.writeBE_eq_ok_iff.mpr ⟨val_lt_pow x, rfl⟩

theorem toSec_compressed (curve : Curve) (x y : ZMod p) :
    (affine curve (.ofZMod x) (.ofZMod y)).toSec true = .ok (compressed x y) := by
  change (Wire.writeBE 32 x.val >>= fun bytes =>
    .ok ((if y.val % 2 = 1 then 0x03 else 0x02) :: bytes.val)) = _
  rw [writeBE_coordinate]
  rfl

theorem toSec_ofAffine_some {x y : ZMod p}
    (h : (Curve.weierstrass (0 : ZMod p) 7).Nonsingular x y) :
    (ofAffine (.some x y h)).toSec true = .ok (compressed x y) :=
  toSec_compressed _ x y

/-- The compressed form of a point is read back. -/
theorem ofSec_compressed {x y : ZMod p}
    (h : (Curve.weierstrass (0 : ZMod p) 7).Nonsingular x y) :
    ofSec (compressed x y) = .ok (ofAffine (.some x y h)) := by
  have hpoint := ofAbscissa_ofZMod (Secp256k1.nonsingular_iff.mp h)
  rw [ofAffine_some, ← Secp256k1.curve_eq, ← hpoint]
  unfold ofSec compressed
  by_cases hodd : y.val % 2 = 1
  · simp [hodd, toNatBE_coordinate]
  · simp [hodd, toNatBE_coordinate]

end Point

end CoinSpend
