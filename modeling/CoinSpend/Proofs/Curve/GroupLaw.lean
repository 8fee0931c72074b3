import CoinSpend.Curve.Group
import CoinSpend.Proofs.Field.Residue

/-!
# The group law

Chord and tangent addition is the addition of the group of nonsingular points. For a prime `m` other
than 2, `Point.ofAffine` embeds the nonsingular points of `y² = x³ + a·x + b` over `ZMod m`, which
form a commutative group, into the points of the library. The embedding takes the sum of the group
to `Point.add` and multiples to `Point.scalarMul`, so neither ever fails on such points.

Results:
* `add_ofAffine`: `Point.add` is the addition of the group.
* `scalarMul_ofAffine`: `Point.scalarMul` is the multiple in the group.
-/

namespace CoinSpend

open WeierstrassCurve (Affine)

variable {m : ℕ} [Fact m.Prime]

/-- The curve `y² = x³ + a·x + b` over the residues modulo `m`. -/
def Curve.weierstrass (a b : ZMod m) : Affine (ZMod m) := ⟨0, 0, 0, a, b⟩

/-- The curve with the coefficients that stand for `a` and `b`. -/
def Curve.ofZMod (a b : ZMod m) : Curve := ⟨.ofZMod a, .ofZMod b⟩

/-- A curve with coefficients of modulus `m` has those that stand for the residues of their
numbers. -/
theorem Curve.ofZMod_num {curve : Curve} (ha : curve.a.modulus = m) (hb : curve.b.modulus = m) :
    Curve.ofZMod (curve.a.num : ZMod m) (curve.b.num : ZMod m) = curve := by
  rw [Curve.ofZMod, FieldElement.ofZMod_num _ ha, FieldElement.ofZMod_num _ hb]

theorem Curve.discriminant_ne_zero {a b : ℕ} (h : (4 * a ^ 3 + 27 * b ^ 2) % m ≠ 0) :
    4 * (a : ZMod m) ^ 3 + 27 * (b : ZMod m) ^ 2 ≠ 0 := by
  intro hzero
  apply h
  rw [← Nat.dvd_iff_mod_eq_zero, ← ZMod.natCast_eq_zero_iff]
  exact_mod_cast hzero

namespace Point

variable {a b : ZMod m}

/-- A nonsingular point of a curve as a point of the library. -/
def ofAffine : (Curve.weierstrass a b).Point → Point
  | .zero => infinity (Curve.ofZMod a b)
  | .some x y _ => affine (Curve.ofZMod a b) (.ofZMod x) (.ofZMod y)

@[simp] theorem ofAffine_zero :
    ofAffine (0 : (Curve.weierstrass a b).Point) = infinity (Curve.ofZMod a b) := rfl

@[simp] theorem ofAffine_some {x y : ZMod m} (h : (Curve.weierstrass a b).Nonsingular x y) :
    ofAffine (.some x y h) = affine (Curve.ofZMod a b) (.ofZMod x) (.ofZMod y) := rfl

@[simp] theorem curve_ofAffine (P : (Curve.weierstrass a b).Point) :
    (ofAffine P).curve = Curve.ofZMod a b := by
  cases P <;> rfl

theorem ofAffine_injective :
    Function.Injective (ofAffine : (Curve.weierstrass a b).Point → Point) := by
  intro P Q h
  cases P with
  | zero =>
    cases Q with
    | zero => rfl
    | some x y hxy => simp [ofAffine, infinity, affine] at h
  | some x y hxy =>
    cases Q with
    | zero => simp [ofAffine, infinity, affine] at h
    | some x' y' hxy' =>
      simp only [ofAffine, affine, Point.mk.injEq, Option.some.injEq, Prod.mk.injEq,
        FieldElement.ofZMod_inj, true_and] at h
      obtain ⟨rfl, rfl⟩ := h
      rfl

/-! ## The curve's equation -/

theorem equation_iff {x y : ZMod m} :
    (Curve.weierstrass a b).Equation x y ↔ y * y = x * x * x + a * x + b := by
  rw [Affine.equation_iff]
  simp only [Curve.weierstrass]
  ring_nf

theorem negY_eq (x y : ZMod m) : (Curve.weierstrass a b).negY x y = -y := by
  simp [Affine.negY, Curve.weierstrass]

/-- Two points with the same x coordinate have the same y coordinate up to its sign. -/
theorem y_eq_or_eq_neg {x y₁ y₂ : ZMod m} (h₁ : (Curve.weierstrass a b).Equation x y₁)
    (h₂ : (Curve.weierstrass a b).Equation x y₂) : y₁ = y₂ ∨ y₁ = -y₂ :=
  mul_self_eq_mul_self_iff.mp ((equation_iff.mp h₁).trans (equation_iff.mp h₂).symm)

theorem two_ne_zero_of_ne (hm : m ≠ 2) : (2 : ZMod m) ≠ 0 := by
  intro h
  have hdvd : m ∣ 2 := (ZMod.natCast_eq_zero_iff 2 m).mp (by exact_mod_cast h)
  exact hm ((Nat.prime_dvd_prime_iff_eq Fact.out Nat.prime_two).mp hdvd)

/-- On a curve whose discriminant is not zero, every point is nonsingular. -/
theorem nonsingular_iff (hm : m ≠ 2) (hab : 4 * a ^ 3 + 27 * b ^ 2 ≠ 0) {x y : ZMod m} :
    (Curve.weierstrass a b).Nonsingular x y ↔ y * y = x * x * x + a * x + b := by
  have hdiscriminant : (Curve.weierstrass a b).Δ = -2 ^ 4 * (4 * a ^ 3 + 27 * b ^ 2) := by
    simp only [Curve.weierstrass, WeierstrassCurve.Δ, WeierstrassCurve.b₂, WeierstrassCurve.b₄,
      WeierstrassCurve.b₆, WeierstrassCurve.b₈]
    ring
  have hne : (Curve.weierstrass a b).Δ ≠ 0 := by
    rw [hdiscriminant]
    exact mul_ne_zero (neg_ne_zero.mpr (pow_ne_zero 4 (two_ne_zero_of_ne hm))) hab
  rw [← Affine.equation_iff_nonsingular_of_Δ_ne_zero hne, equation_iff]

/-- A point is built from coordinates that satisfy the curve's equation. -/
theorem ofCoordinates_ofZMod {x y : ZMod m} (h : y * y = x * x * x + a * x + b) :
    ofCoordinates (Curve.ofZMod a b) (.ofZMod x) (.ofZMod y) =
      .ok (affine (Curve.ofZMod a b) (.ofZMod x) (.ofZMod y)) := by
  simp only [ofCoordinates, Curve.ofZMod, FieldElement.ofZMod_mul, FieldElement.ofZMod_add, bind,
    Except.bind]
  rw [if_pos (congrArg _ h)]

/-! ## Slopes -/

theorem chordSlope_ofZMod {x₁ x₂ : ZMod m} (y₁ y₂ : ZMod m) (h : x₁ ≠ x₂) :
    chordSlope (.ofZMod x₁) (.ofZMod y₁) (.ofZMod x₂) (.ofZMod y₂) =
      .ok (.ofZMod ((Curve.weierstrass a b).slope x₁ x₂ y₁ y₂)) := by
  have hrun : x₂ - x₁ ≠ 0 := sub_ne_zero.mpr h.symm
  have hslope : (y₂ - y₁) / (x₂ - x₁) = (Curve.weierstrass a b).slope x₁ x₂ y₁ y₂ := by
    rw [Affine.slope_of_X_ne h, ← neg_sub y₁ y₂, ← neg_sub x₁ x₂, neg_div_neg_eq]
  simp only [chordSlope, FieldElement.ofZMod_sub, bind, Except.bind]
  rw [FieldElement.ofZMod_div _ hrun, hslope]

/-- A y coordinate is its own negative only at zero. -/
theorem ne_neg_self (hm : m ≠ 2) {y : ZMod m} (hy : y ≠ 0) : y ≠ -y := by
  intro h
  have htwo : 2 * y = 0 := by linear_combination h
  rcases mul_eq_zero.mp htwo with h2 | h0
  · exact two_ne_zero_of_ne hm h2
  · exact hy h0

theorem tangentSlope_ofZMod (hm : m ≠ 2) (x : ZMod m) {y : ZMod m} (hy : y ≠ 0) :
    tangentSlope (Curve.ofZMod a b) (.ofZMod x) (.ofZMod y) =
      .ok (.ofZMod ((Curve.weierstrass a b).slope x x y y)) := by
  have hne : y ≠ (Curve.weierstrass a b).negY x y := by
    rw [negY_eq]
    exact ne_neg_self hm hy
  have hrun : y * ((2 : ℕ) : ZMod m) ≠ 0 := mul_ne_zero hy (by exact_mod_cast two_ne_zero_of_ne hm)
  have hslope : (x * x * ((3 : ℕ) : ZMod m) + a) / (y * ((2 : ℕ) : ZMod m)) =
      (Curve.weierstrass a b).slope x x y y := by
    rw [Affine.slope_of_Y_ne rfl hne, negY_eq]
    simp only [Curve.weierstrass]
    congr 1 <;> push_cast <;> ring
  simp only [tangentSlope, Curve.ofZMod, FieldElement.ofZMod_mul, FieldElement.ofZMod_scale,
    FieldElement.ofZMod_add, bind, Except.bind]
  rw [FieldElement.ofZMod_div _ hrun, hslope]

theorem reflectThird_ofZMod (slope x₁ y₁ x₂ : ZMod m) :
    reflectThird (Curve.ofZMod a b) (.ofZMod slope) (.ofZMod x₁) (.ofZMod y₁) (.ofZMod x₂) =
      .ok (affine (Curve.ofZMod a b) (.ofZMod ((Curve.weierstrass a b).addX x₁ x₂ slope))
        (.ofZMod ((Curve.weierstrass a b).addY x₁ x₂ y₁ slope))) := by
  have hx : slope * slope - x₁ - x₂ = (Curve.weierstrass a b).addX x₁ x₂ slope := by
    simp only [Affine.addX, Curve.weierstrass]
    ring
  have hy : slope * (x₁ - (slope * slope - x₁ - x₂)) - y₁ =
      (Curve.weierstrass a b).addY x₁ x₂ y₁ slope := by
    rw [Affine.addY, negY_eq, Affine.negAddY, ← hx]
    ring
  simp only [reflectThird, FieldElement.ofZMod_mul, FieldElement.ofZMod_sub, bind, Except.bind]
  rw [hy, hx]

/-! ## Addition -/

/-- Chord and tangent addition is the addition of the group. -/
theorem add_ofAffine (hm : m ≠ 2) (P Q : (Curve.weierstrass a b).Point) :
    (ofAffine P).add (ofAffine Q) = .ok (ofAffine (P + Q)) := by
  unfold add
  rw [if_pos (by simp)]
  cases P with
  | zero => simp [← Affine.Point.zero_def, infinity]
  | some x₁ y₁ h₁ =>
    cases Q with
    | zero => simp [← Affine.Point.zero_def, infinity, affine]
    | some x₂ y₂ h₂ =>
      simp only [ofAffine_some, affine, FieldElement.ofZMod_inj, ne_eq, ite_not]
      by_cases hx : x₁ = x₂
      · subst hx
        rw [if_pos rfl]
        by_cases hy : y₁ = -y₂
        · -- a vertical line
          have hvertical : ¬ y₁ = y₂ ∨ (FieldElement.ofZMod y₁).isZero = true := by
            by_contra! hne
            obtain ⟨rfl, hzero⟩ := hne
            exact ne_neg_self hm (fun h => hzero ((FieldElement.isZero_ofZMod _).mpr h)) hy
          rw [if_pos hvertical, Affine.Point.add_of_Y_eq rfl (by rw [negY_eq]; exact hy)]
          rfl
        · -- a tangent
          have hsame : y₁ = y₂ := (y_eq_or_eq_neg h₁.1 h₂.1).resolve_right hy
          subst hsame
          have hy0 : y₁ ≠ 0 := by
            rintro rfl
            exact hy neg_zero.symm
          rw [if_neg (by simp [hy0]), tangentSlope_ofZMod hm x₁ hy0,
            Affine.Point.add_of_Y_ne (by rw [negY_eq]; exact hy)]
          exact reflectThird_ofZMod _ _ _ _
      · rw [if_neg hx, chordSlope_ofZMod (a := a) (b := b) y₁ y₂ hx, Affine.Point.add_of_X_ne hx]
        exact reflectThird_ofZMod _ _ _ _

/-! ## Multiples -/

theorem addMultiple_ofAffine (hm : m ≠ 2) (T P : (Curve.weierstrass a b).Point) (k : ℕ) :
    addMultiple (ofAffine T) (ofAffine P) k = .ok (ofAffine (T + k • P)) := by
  induction k using Nat.strong_induction_on generalizing T P with
  | _ k ih =>
    unfold addMultiple
    by_cases hk : k = 0
    · simp [hk]
    · rw [if_neg hk]
      have hhalf : k / 2 < k := by omega
      have hdouble : k • P = (k % 2) • P + (k / 2) • (P + P) := by
        rw [← two_nsmul, ← mul_nsmul, ← add_nsmul, Nat.mod_add_div]
      by_cases hodd : k % 2 = 1
      · rw [if_pos hodd, add_ofAffine hm, add_ofAffine hm]
        simp only [bind, Except.bind]
        rw [ih _ hhalf, hdouble, hodd, one_nsmul, add_assoc]
      · rw [if_neg hodd, add_ofAffine hm]
        simp only [bind, Except.bind]
        rw [ih _ hhalf, hdouble, show k % 2 = 0 by omega, zero_nsmul, zero_add]

/-- Doubling and adding computes the multiple in the group. -/
theorem scalarMul_ofAffine (hm : m ≠ 2) (P : (Curve.weierstrass a b).Point) (k : ℕ) :
    (ofAffine P).scalarMul k = .ok (ofAffine (k • P)) := by
  rw [scalarMul, curve_ofAffine, ← ofAffine_zero, addMultiple_ofAffine hm, zero_add]

end Point

end CoinSpend
