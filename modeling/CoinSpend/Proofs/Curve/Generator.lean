import CoinSpend.Proofs.Curve.Jacobian
import CoinSpend.Proofs.Curve.Primality

/-!
# The group of the generator

secp256k1 is the curve `y² = x³ + 7` over `ZMod p`. Its generator has the prime order `n`, so
multiples of it are told apart exactly by the residues of their scalars modulo `n`.

Results:
* `addOrderOf_basePoint`: the generator has order `n`.
* `mulGenerator_eq`: `mulGenerator` never fails and computes the multiple of the generator, also
  where the scalar is not below `n`.
-/

namespace CoinSpend.Secp256k1

open WeierstrassCurve (Affine)

/-- The group of nonsingular points of secp256k1. -/
abbrev Group : Type := (Curve.weierstrass (0 : ZMod p) 7).Point

theorem p_ne_two : p ≠ 2 := by decide

theorem curve_eq : curve = Curve.ofZMod (0 : ZMod p) 7 := by
  have ha : FieldElement.ofZMod (0 : ZMod p) = curve.a := FieldElement.ofZMod_num curve.a rfl
  have hb : FieldElement.ofZMod (7 : ZMod p) = curve.b := FieldElement.ofZMod_num curve.b rfl
  rw [Curve.ofZMod, ha, hb]

/-! ## The generator as a point of the group -/

/-- The x coordinate of the generator. -/
def generatorX : ZMod p := 0x79be667ef9dcbbac55a06295ce870b07029bfcdb2dce28d959f2815b16f81798

/-- The y coordinate of the generator. -/
def generatorY : ZMod p := 0x483ada7726a3c4655da4fbfc0e1108a8fd17b448a68554199c47d08ffb10d4b8

theorem discriminant_ne_zero : 4 * (0 : ZMod p) ^ 3 + 27 * 7 ^ 2 ≠ 0 := by
  decide

theorem nonsingular_iff {x y : ZMod p} :
    (Curve.weierstrass (0 : ZMod p) 7).Nonsingular x y ↔ y * y = x * x * x + 0 * x + 7 :=
  Point.nonsingular_iff p_ne_two discriminant_ne_zero

theorem nonsingular_generator :
    (Curve.weierstrass (0 : ZMod p) 7).Nonsingular generatorX generatorY :=
  nonsingular_iff.mpr (by decide)

/-- The generator in the group. -/
def basePoint : Group := .some generatorX generatorY nonsingular_generator

theorem basePoint_ne_zero : basePoint ≠ 0 := Affine.Point.some_ne_zero _

theorem ofAffine_basePoint : Point.ofAffine basePoint = generator := by
  rw [basePoint, Point.ofAffine_some, ← curve_eq]
  have hx : FieldElement.ofZMod generatorX = _ := FieldElement.ofZMod_num
    ⟨0x79be667ef9dcbbac55a06295ce870b07029bfcdb2dce28d959f2815b16f81798, p, by decide, by decide⟩
    rfl
  have hy : FieldElement.ofZMod generatorY = _ := FieldElement.ofZMod_num
    ⟨0x483ada7726a3c4655da4fbfc0e1108a8fd17b448a68554199c47d08ffb10d4b8, p, by decide, by decide⟩
    rfl
  rw [hx, hy, generator]

/-! ## Its order -/

/-- One less than `n` times the generator is its reflection. -/
theorem isMultiple_pred_order :
    Jacobian.isMultiple generatorX generatorY (n - 1) generatorX (-generatorY) = true := by
  decide +kernel

theorem order_nsmul_basePoint : n • basePoint = 0 := by
  have hneg : -basePoint = .some generatorX (-generatorY) (by
      rw [nonsingular_iff, neg_mul_neg]
      exact nonsingular_iff.mp nonsingular_generator) := by
    simp only [basePoint, Affine.Point.neg_some, Point.negY_eq]
  have hpred : (n - 1) • basePoint = -basePoint := by
    rw [hneg]
    exact Jacobian.nsmul_eq_of_isMultiple _ _ isMultiple_pred_order
  have hn : n = n - 1 + 1 := by decide
  rw [hn, succ_nsmul, hpred, neg_add_cancel]

/-- The generator has order `n`. -/
theorem addOrderOf_basePoint : addOrderOf basePoint = n :=
  addOrderOf_eq_prime order_nsmul_basePoint basePoint_ne_zero

theorem nsmul_basePoint_eq_iff {j k : ℕ} :
    j • basePoint = k • basePoint ↔ (j : ZMod n) = (k : ZMod n) := by
  rw [nsmul_eq_nsmul_iff_modEq, addOrderOf_basePoint, ZMod.natCast_eq_natCast_iff]

theorem nsmul_basePoint_eq_neg_iff {j k : ℕ} :
    j • basePoint = -(k • basePoint) ↔ (j : ZMod n) = -(k : ZMod n) := by
  rw [eq_neg_iff_add_eq_zero, eq_neg_iff_add_eq_zero, ← add_nsmul, ← Nat.cast_add,
    ← addOrderOf_dvd_iff_nsmul_eq_zero, addOrderOf_basePoint, ZMod.natCast_eq_zero_iff]

theorem nsmul_basePoint_eq_zero_iff {k : ℕ} : k • basePoint = 0 ↔ (k : ZMod n) = 0 := by
  rw [← addOrderOf_dvd_iff_nsmul_eq_zero, addOrderOf_basePoint, ZMod.natCast_eq_zero_iff]

/-! ## Multiples in the library -/

/-- The scalar is reduced before it multiplies a point. -/
theorem mul_ofAffine (P : Group) (k : ℕ) :
    mul (Point.ofAffine P) k = .ok (Point.ofAffine ((k % n) • P)) :=
  Point.scalarMul_ofAffine p_ne_two P (k % n)

/-- The multiple of the generator, for every scalar. -/
theorem mulGenerator_eq (k : ℕ) : mulGenerator k = .ok (Point.ofAffine (k • basePoint)) := by
  have hmod : (k % n) • basePoint = k • basePoint := by
    rw [nsmul_basePoint_eq_iff, ZMod.natCast_mod]
  rw [mulGenerator, ← ofAffine_basePoint, mul_ofAffine, hmod]

/-- A multiple of the generator, checked by computation. -/
theorem mulGenerator_of_isMultiple {k : ℕ} {x y : ZMod p}
    (hcurve : y * y = x * x * x + 0 * x + 7)
    (hcheck : Jacobian.isMultiple generatorX generatorY k x y = true) :
    mulGenerator k = .ok (.affine curve (.ofZMod x) (.ofZMod y)) := by
  rw [mulGenerator_eq, curve_eq, basePoint,
    Jacobian.nsmul_eq_of_isMultiple _ (nonsingular_iff.mpr hcurve) hcheck]
  rfl

end CoinSpend.Secp256k1
