import CoinSpend.Proofs.Curve.PublicKey
import Mathlib

/-!
# The order of secp256k1

Scalars are reduced modulo the order of the generator, also for other points. That is sound because
the multiples of the generator are all the points there are: `n` divides the number of points, an x
coordinate belongs to at most two of them, so that there are at most `2 · p + 1 < 3 · n`, and their
number is odd, since no point has order two.

Results:
* `Secp256k1.natCard_group`: secp256k1 has `n` points.
* `Secp256k1.mul_eq_scalarMul`: a reduced scalar makes the same multiple, of every point.
-/

namespace CoinSpend.Secp256k1

open WeierstrassCurve (Affine)

theorem ordinate_ne_zero {x y : ZMod p} (h : (Curve.weierstrass (0 : ZMod p) 7).Nonsingular x y) :
    y ≠ 0 := by
  rintro rfl
  have hequation := nonsingular_iff.mp h
  exact cube_add_seven_ne_zero x (by linear_combination -hequation)

/-! ## At most two points for an x coordinate -/

/-- What the compressed form keeps of a point: the x coordinate and the parity of the y coordinate.
-/
def abscissaAndParity : Group → Option (ZMod p × Bool)
  | .zero => none
  | .some x y _ => some (x, y.val % 2 = 1)

theorem abscissaAndParity_injective : Function.Injective abscissaAndParity := by
  intro P Q h
  cases P with
  | zero =>
    cases Q with
    | zero => rfl
    | some x y hxy => cases h
  | some x y hxy =>
    cases Q with
    | zero => cases h
    | some x' y' hxy' =>
      simp only [abscissaAndParity, Option.some.injEq, Prod.mk.injEq, decide_eq_decide] at h
      obtain ⟨rfl, hparity⟩ := h
      rcases Point.y_eq_or_eq_neg hxy'.1 hxy.1 with rfl | rfl
      · rfl
      · have hflipped := odd_val_neg_iff (ordinate_ne_zero hxy)
        exact absurd (hflipped.symm.trans hparity.symm) not_iff_self

instance : Finite Group := Finite.of_injective abscissaAndParity abscissaAndParity_injective

theorem natCard_group_le : Nat.card Group ≤ 2 * p + 1 := by
  have hcard : Nat.card (Option (ZMod p × Bool)) = 2 * p + 1 := by
    rw [Finite.card_option, Nat.card_prod, Nat.card_zmod, Nat.card_eq_fintype_card,
      Fintype.card_bool, mul_comm]
  rw [← hcard]
  exact Nat.card_le_card_of_injective abscissaAndParity abscissaAndParity_injective

/-! ## No point of order two -/

/-- Only the point at infinity is its own negative. -/
theorem eq_zero_of_eq_neg {P : Group} (h : P = -P) : P = 0 := by
  cases P with
  | zero => rfl
  | some x y hxy =>
    rw [Affine.Point.neg_some, Affine.Point.some.injEq, Point.negY_eq] at h
    exact absurd h.2 (Point.ne_neg_self p_ne_two (ordinate_ne_zero hxy))

theorem not_two_dvd_natCard_group : ¬ 2 ∣ Nat.card Group := by
  intro h
  have : Fact (Nat.Prime 2) := ⟨Nat.prime_two⟩
  obtain ⟨P, hP⟩ := exists_prime_addOrderOf_dvd_card' 2 h
  have hdouble : P + P = 0 := by
    rw [← two_nsmul, ← hP, addOrderOf_nsmul_eq_zero]
  rw [eq_zero_of_eq_neg (eq_neg_of_add_eq_zero_left hdouble), addOrderOf_zero] at hP
  omega

/-! ## The number of points -/

/-- secp256k1 has `n` points, the one at infinity among them. -/
theorem natCard_group : Nat.card Group = n := by
  obtain ⟨index, hindex⟩ : n ∣ Nat.card Group := by
    rw [← addOrderOf_basePoint]
    exact addOrderOf_dvd_natCard basePoint
  have hpositive : 0 < Nat.card Group := Nat.card_pos
  have hle := natCard_group_le
  have hodd := not_two_dvd_natCard_group
  have hbound : 2 * p + 1 < n * 3 := by decide
  rw [hindex] at hpositive hle hodd ⊢
  have hlt : index < 3 := lt_of_mul_lt_mul_left (hle.trans_lt hbound) n.zero_le
  interval_cases index
  · omega
  · rw [mul_one]
  · omega

theorem mod_order_nsmul (P : Group) (k : ℕ) : (k % n) • P = k • P := by
  rw [← natCard_group]
  exact mod_natCard_nsmul P k

theorem order_nsmul (P : Group) : n • P = 0 := by
  rw [← natCard_group]
  exact card_nsmul_eq_zero'

/-! ## Reduced scalars -/

/-- The points of secp256k1 are those of the group. -/
theorem isOn_curve_iff {P : Point} : P.IsOn curve ↔ ∃ Q : Group, Point.ofAffine Q = P := by
  rw [curve_eq]
  exact Point.isOn_iff p_ne_two discriminant_ne_zero

/-- A reduced scalar makes the multiple by the scalar as it was. -/
theorem mul_ofAffine_eq (P : Group) (k : ℕ) :
    mul (Point.ofAffine P) k = .ok (Point.ofAffine (k • P)) := by
  rw [mul_ofAffine, mod_order_nsmul]

/-- Reducing the scalar modulo `n` makes no difference, for the generator and for every other point
of the curve; `n` times a point is the point at infinity. -/
theorem mul_eq_scalarMul {P : Point} (hP : P.IsOn curve) (k : ℕ) :
    (∃ Q, mul P k = .ok Q ∧ P.scalarMul k = .ok Q) ∧
      (∃ Q, mulGenerator k = .ok Q ∧ generator.scalarMul k = .ok Q) ∧
      P.scalarMul n = .ok infinity := by
  obtain ⟨Q, rfl⟩ := isOn_curve_iff.mp hP
  have hmultiple : ∀ (R : Group) (k : ℕ),
      (Point.ofAffine R).scalarMul k = .ok (Point.ofAffine (k • R)) :=
    fun R k => Point.scalarMul_ofAffine p_ne_two R k
  refine ⟨⟨_, mul_ofAffine_eq Q k, hmultiple Q k⟩, ⟨_, mulGenerator_eq k, ?_⟩, ?_⟩
  · rw [← ofAffine_basePoint, hmultiple]
  · rw [hmultiple, order_nsmul, Point.ofAffine_zero, ← curve_eq, infinity]

/-! A point with the x coordinate 1, of which no multiple of the generator is known. -/

/-- The y coordinate of a point with the x coordinate 1. -/
def ordinateAtOne : FieldElement :=
  .ofZMod (m := p) 0x4218f20ae6c646b363db68605822fb14264ca8d2587fdd6fbc750d587e76a7ee

theorem mul_abscissa_one :
    ∃ P, Point.ofCoordinates curve (.ofZMod (m := p) 1) ordinateAtOne = .ok P ∧
      (∃ Q, mul P (n + 1) = .ok Q ∧ P.scalarMul (n + 1) = .ok Q) ∧
      P.scalarMul n = .ok infinity := by
  have hpoint : Point.ofCoordinates curve (.ofZMod (m := p) 1) ordinateAtOne =
      .ok (.affine curve (.ofZMod (m := p) 1) ordinateAtOne) :=
    eq_ok_of_toOption (by decide +kernel)
  obtain ⟨hmul, -, horder⟩ := mul_eq_scalarMul (.finite hpoint) (n + 1)
  exact ⟨_, hpoint, hmul, horder⟩

end CoinSpend.Secp256k1
