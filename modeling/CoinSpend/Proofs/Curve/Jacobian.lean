import CoinSpend.Proofs.Curve.GroupLaw

/-!
# Multiples without inverses

Jacobian coordinates `(X, Y, Z)` stand for the affine point `(X / Z², Y / Z³)`, so multiples on a
curve `y² = x³ + b` take ring operations only. A concrete multiple of a concrete point is then a
computation that the kernel carries out.

Results:
* `Represents.double`, `Represents.add`: doubling, and the addition of an affine point.
* `nsmul_eq_of_isMultiple`: the multiple of a point, checked by computation.
-/

namespace CoinSpend

open WeierstrassCurve (Affine)

/-- Coordinates of a point with a common denominator. -/
structure Jacobian (m : ℕ) where
  x : ZMod m
  y : ZMod m
  z : ZMod m

namespace Jacobian

/-! ## The formulas -/

section Formulas

variable {m : ℕ}

/-- The double of a point. -/
def double (t : Jacobian m) : Jacobian m :=
  let s := 4 * t.x * (t.y * t.y)
  let r := 3 * (t.x * t.x)
  let x := r * r - 2 * s
  ⟨x, r * (s - x) - 8 * (t.y * t.y * (t.y * t.y)), 2 * t.y * t.z⟩

/-- The sum with the affine point `(x, y)`. -/
def add (t : Jacobian m) (x y : ZMod m) : Jacobian m :=
  let square := t.z * t.z
  let run := x * square - t.x
  let rise := y * (t.z * square) - t.y
  let cube := run * run * run
  let v := t.x * (run * run)
  let x' := rise * rise - cube - 2 * v
  ⟨x', rise * (v - x') - t.y * cube, t.z * run⟩

/-- The `k`-fold sum of the affine point `(x, y)`, for a positive `k`. -/
def multiple (x y : ZMod m) (k : ℕ) : Jacobian m :=
  if k ≤ 1 then ⟨x, y, 1⟩
  else
    let t := (multiple x y (k / 2)).double
    if k % 2 = 1 then t.add x y else t
termination_by k

/-- Whether the `k`-fold sum of `(x, y)` comes out as `(x', y')`. -/
def isMultiple (x y : ZMod m) (k : ℕ) (x' y' : ZMod m) : Bool :=
  let t := multiple x y k
  k ≠ 0 ∧ t.z ≠ 0 ∧ t.x = x' * (t.z * t.z) ∧ t.y = y' * (t.z * (t.z * t.z))

end Formulas

/-! ## What they compute -/

variable {m : ℕ} [Fact m.Prime] {b : ZMod m}

/-- Coordinates with a denominator other than zero stand for the point `P`. -/
def Represents (t : Jacobian m) (P : (Curve.weierstrass 0 b).Point) : Prop :=
  t.z ≠ 0 → ∃ x y, ∃ h : (Curve.weierstrass 0 b).Nonsingular x y,
    P = .some x y h ∧ t.x = x * t.z ^ 2 ∧ t.y = y * t.z ^ 3

theorem Represents.double {t : Jacobian m} {P : (Curve.weierstrass 0 b).Point}
    (ht : t.Represents P) : t.double.Represents (P + P) := by
  intro hz'
  have hz : t.z ≠ 0 := right_ne_zero_of_mul hz'
  have hty : 2 * t.y ≠ 0 := left_ne_zero_of_mul hz'
  obtain ⟨x, y, h, rfl, hx, hy⟩ := ht hz
  have hrun : 2 * y ≠ 0 := by
    rintro h0
    exact hty (by rw [hy]; linear_combination t.z ^ 3 * h0)
  have hne : y ≠ (Curve.weierstrass 0 b).negY x y := by
    rw [Point.negY_eq]
    exact fun hself => hrun (by linear_combination hself)
  have hslope : (Curve.weierstrass 0 b).slope x x y y * (2 * y) = 3 * x ^ 2 := by
    rw [Affine.slope_of_Y_ne rfl hne, Point.negY_eq]
    simp only [Curve.weierstrass]
    rw [show y - -y = 2 * y by ring, div_mul_cancel₀ _ hrun]
    ring
  refine ⟨_, _, _, Affine.Point.add_self_of_Y_ne hne, ?_, ?_⟩
  · generalize (Curve.weierstrass 0 b).slope x x y y = slope at hslope
    simp only [Jacobian.double, Affine.addX, Curve.weierstrass, hx, hy]
    linear_combination (-(slope * (2 * y) + 3 * x ^ 2) * t.z ^ 8) * hslope
  · generalize (Curve.weierstrass 0 b).slope x x y y = slope at hslope
    rw [Affine.addY, Point.negY_eq]
    simp only [Jacobian.double, Affine.negAddY, Affine.addX, Curve.weierstrass, hx, hy]
    linear_combination (t.z ^ 12 * ((slope * (2 * y)) ^ 2 + slope * (2 * y) * (3 * x ^ 2)
      + (3 * x ^ 2) ^ 2 - 12 * x * y ^ 2)) * hslope

theorem Represents.add {t : Jacobian m} {P : (Curve.weierstrass 0 b).Point}
    (ht : t.Represents P) {x y : ZMod m} (h : (Curve.weierstrass 0 b).Nonsingular x y) :
    (t.add x y).Represents (P + .some x y h) := by
  intro hz'
  have hz : t.z ≠ 0 := left_ne_zero_of_mul hz'
  have hrun : x * (t.z * t.z) - t.x ≠ 0 := right_ne_zero_of_mul hz'
  obtain ⟨x₁, y₁, h₁, rfl, hx, hy⟩ := ht hz
  have hne : x₁ ≠ x := by
    rintro rfl
    exact hrun (by rw [hx]; ring)
  have hslope : (Curve.weierstrass 0 b).slope x₁ x y₁ y * (x₁ - x) = y₁ - y := by
    rw [Affine.slope_of_X_ne hne, div_mul_cancel₀ _ (sub_ne_zero.mpr hne)]
  refine ⟨_, _, _, Affine.Point.add_of_X_ne hne, ?_, ?_⟩
  · generalize (Curve.weierstrass 0 b).slope x₁ x y₁ y = slope at hslope
    simp only [Jacobian.add, Affine.addX, Curve.weierstrass, hx, hy]
    linear_combination (-(slope * (x₁ - x) + (y₁ - y)) * t.z ^ 6) * hslope
  · generalize (Curve.weierstrass 0 b).slope x₁ x y₁ y = slope at hslope
    rw [Affine.addY, Point.negY_eq]
    simp only [Jacobian.add, Affine.negAddY, Affine.addX, Curve.weierstrass, hx, hy]
    linear_combination (-t.z ^ 9 * ((slope * (x - x₁)) ^ 2 + slope * (x - x₁) * (y - y₁)
      + (y - y₁) ^ 2 - (x - x₁) ^ 2 * (2 * x₁ + x))) * hslope

theorem represents_multiple {x y : ZMod m} (h : (Curve.weierstrass 0 b).Nonsingular x y) {k : ℕ}
    (hk : k ≠ 0) : (multiple x y k).Represents (k • Affine.Point.some x y h) := by
  induction k using Nat.strong_induction_on with
  | _ k ih =>
    unfold multiple
    by_cases hone : k ≤ 1
    · rw [if_pos hone, show k = 1 by omega, one_nsmul]
      exact fun _ => ⟨x, y, h, rfl, by simp, by simp⟩
    · rw [if_neg hone]
      have hhalf := (ih (k / 2) (by omega) (by omega)).double
      rw [← two_nsmul, ← mul_nsmul'] at hhalf
      by_cases hodd : k % 2 = 1
      · have hk' : k • Affine.Point.some x y h =
            (2 * (k / 2)) • Affine.Point.some x y h + Affine.Point.some x y h := by
          rw [← succ_nsmul, show 2 * (k / 2) + 1 = k by omega]
        rw [if_pos hodd, hk']
        exact hhalf.add h
      · rw [if_neg hodd]
        rwa [show 2 * (k / 2) = k by omega] at hhalf

/-- A multiple of a point, checked by computation. -/
theorem nsmul_eq_of_isMultiple {x y x' y' : ZMod m} {k : ℕ}
    (h : (Curve.weierstrass 0 b).Nonsingular x y)
    (h' : (Curve.weierstrass 0 b).Nonsingular x' y') (hcheck : isMultiple x y k x' y' = true) :
    k • Affine.Point.some x y h = .some x' y' h' := by
  simp only [isMultiple, decide_eq_true_eq] at hcheck
  obtain ⟨hk, hz, hx, hy⟩ := hcheck
  obtain ⟨X, Y, hXY, heq, hX, hY⟩ := represents_multiple h hk hz
  have hxeq : X = x' := by
    apply mul_right_cancel₀ (pow_ne_zero 2 hz)
    rw [← hX, hx, pow_two]
  have hyeq : Y = y' := by
    apply mul_right_cancel₀ (pow_ne_zero 3 hz)
    rw [← hY, hy]
    ring
  subst hxeq hyeq
  exact heq

end Jacobian

end CoinSpend
