import CoinSpend.Proofs.Curve.PublicKey
import CoinSpend.Proofs.Field.Unchecked
import Mathlib

/-!
# Points stay on their curve

Coordinates are checked where a point is built from them, and nowhere else: a sum is put together
from what the chord or the tangent rule gives. Modulo a prime, the third point on a line through two
points of a curve satisfies the curve's equation again. This needs no discriminant, and it holds in
every characteristic; modulo 2 there is no tangent rule, since it divides by zero.

Results:
* `add_cases`: what a sum can be.
* `exists_equation_of_add`: modulo a prime, chord and tangent rule do not leave the curve.
* `IsPlaced.add`, `IsPlaced.scalarMul`: sums and multiples on any curve.
* `values_in_domain`: every element is within its bounds, and every point on its curve.
-/

namespace CoinSpend.Point

open WeierstrassCurve (Affine)

/-- The points that the library gives, from coordinates, from bytes and from other points. -/
inductive Obtained : Point → Prop
  | infinity (curve : Curve) : Obtained (infinity curve)
  | generator : Obtained Secp256k1.generator
  | ofCoordinates {curve : Curve} {x y : FieldElement} {P : Point}
    (h : ofCoordinates curve x y = .ok P) : Obtained P
  | ofSec {bytes : Bytes} {P : Point} (h : ofSec bytes = .ok P) : Obtained P
  | add {P Q R : Point} (hP : Obtained P) (hQ : Obtained Q) (h : P.add Q = .ok R) : Obtained R
  | scalarMul {P Q : Point} {scalar : ℕ} (hP : Obtained P) (h : P.scalarMul scalar = .ok Q) :
    Obtained Q
  | mul {P Q : Point} {scalar : ℕ} (hP : Obtained P) (h : Secp256k1.mul P scalar = .ok Q) :
    Obtained Q

/-- The coordinates and the coefficients are of one field. If its modulus is prime, the coordinates
satisfy the equation of the curve. -/
structure Satisfies (curve : Curve) (x y : FieldElement) : Prop where
  y_modulus : y.modulus = x.modulus
  a_modulus : curve.a.modulus = x.modulus
  b_modulus : curve.b.modulus = x.modulus
  equation : x.modulus.Prime →
    (y.num : ZMod x.modulus) ^ 2 = x.num ^ 3 + curve.a.num * x.num + curve.b.num

/-- A point with coordinates is on its curve. -/
def IsPlaced (P : Point) : Prop := ∀ x y, P.coordinates = some (x, y) → Satisfies P.curve x y

/-! ## One addition -/

/-- What a sum can be: one of the two points, the point at infinity, or the reflection of the third
point on some line. -/
theorem add_cases {P Q R : Point} (h : P.add Q = .ok R) :
    P.curve = Q.curve ∧ (R = P ∨ R = Q ∨ R = infinity P.curve ∨
      ∃ x₁ y₁ x₂ y₂ slope, P.coordinates = some (x₁, y₁) ∧ Q.coordinates = some (x₂, y₂) ∧
        reflectThird P.curve slope x₁ y₁ x₂ = .ok R) := by
  unfold add at h
  by_cases hcurve : P.curve = Q.curve
  · refine ⟨hcurve, ?_⟩
    rw [if_pos hcurve] at h
    cases hP : P.coordinates with
    | none =>
      simp only [hP, Except.ok.injEq] at h
      exact .inr (.inl h.symm)
    | some first =>
      cases hQ : Q.coordinates with
      | none =>
        simp only [hP, hQ, Except.ok.injEq] at h
        exact .inl h.symm
      | some second =>
        simp only [hP, hQ] at h
        split_ifs at h with hx hy
        · obtain ⟨slope, -, hthird⟩ := bind_eq_ok_iff.mp h
          exact .inr (.inr (.inr ⟨_, _, _, _, slope, rfl, rfl, hthird⟩))
        · cases h
          exact .inr (.inr (.inl rfl))
        · obtain ⟨slope, -, hthird⟩ := bind_eq_ok_iff.mp h
          exact .inr (.inr (.inr ⟨_, _, _, _, slope, rfl, rfl, hthird⟩))
  · rw [if_neg hcurve] at h
    cases h

/-- The third point on a line is of the field of the others. -/
theorem exists_of_reflectThird {curve : Curve} {slope x₁ y₁ x₂ : FieldElement} {R : Point}
    (h : reflectThird curve slope x₁ y₁ x₂ = .ok R) :
    ∃ x₃ y₃, R = affine curve x₃ y₃ ∧ x₃.modulus = x₁.modulus ∧ y₃.modulus = x₁.modulus := by
  unfold reflectThird at h
  obtain ⟨square, hsquare, h⟩ := bind_eq_ok_iff.mp h
  obtain ⟨left, hleft, h⟩ := bind_eq_ok_iff.mp h
  obtain ⟨x₃, hx₃, h⟩ := bind_eq_ok_iff.mp h
  obtain ⟨run, hrun, h⟩ := bind_eq_ok_iff.mp h
  obtain ⟨rise, hrise, h⟩ := bind_eq_ok_iff.mp h
  obtain ⟨y₃, hy₃, h⟩ := bind_eq_ok_iff.mp h
  cases h
  have hsquares := (FieldElement.modulus_eq_of_combine hsquare).2
  have hlefts := FieldElement.modulus_eq_of_combine hleft
  have hx₃s := (FieldElement.modulus_eq_of_combine hx₃).2
  have hrises := (FieldElement.modulus_eq_of_combine hrise).2
  have hy₃s := (FieldElement.modulus_eq_of_combine hy₃).2
  exact ⟨x₃, y₃, rfl, by omega, by omega⟩

section Residues

variable {m : ℕ} [Fact m.Prime] {a b u₁ v₁ u₂ v₂ : ZMod m} {R : Point}

/-- Modulo 2 no tangent has a slope. -/
theorem tangentSlope_of_two (hm : m = 2) (x y : ZMod m) :
    tangentSlope (Curve.ofZMod a b) (.ofZMod x) (.ofZMod y) = .error .zeroInverse := by
  have htwo : y * ((2 : ℕ) : ZMod m) = 0 := by
    rw [← hm, ZMod.natCast_self, mul_zero]
  simp only [tangentSlope, Curve.ofZMod, FieldElement.ofZMod_mul, FieldElement.ofZMod_scale,
    FieldElement.ofZMod_add, ok_bind]
  rw [htwo, FieldElement.div_ofZMod_zero]

/-- The third point on the line through two points of a curve is on the curve. -/
theorem exists_equation_of_reflectThird (h₁ : (Curve.weierstrass a b).Equation u₁ v₁)
    (h₂ : (Curve.weierstrass a b).Equation u₂ v₂) (hline : ¬(u₁ = u₂ ∧ v₁ = -v₂))
    (h : reflectThird (Curve.ofZMod a b) (.ofZMod ((Curve.weierstrass a b).slope u₁ u₂ v₁ v₂))
      (.ofZMod u₁) (.ofZMod v₁) (.ofZMod u₂) = .ok R) :
    ∃ u v : ZMod m, R = affine (Curve.ofZMod a b) (.ofZMod u) (.ofZMod v) ∧
      (Curve.weierstrass a b).Equation u v := by
  rw [reflectThird_ofZMod] at h
  cases h
  rw [← negY_eq (a := a) (b := b) u₂] at hline
  exact ⟨_, _, rfl, Affine.equation_add h₁ h₂ hline⟩

/-- A sum of two points of a curve is on the curve, be it singular or not. -/
theorem exists_equation_of_add (h₁ : (Curve.weierstrass a b).Equation u₁ v₁)
    (h₂ : (Curve.weierstrass a b).Equation u₂ v₂)
    (h : (affine (Curve.ofZMod a b) (.ofZMod u₁) (.ofZMod v₁)).add
      (affine (Curve.ofZMod a b) (.ofZMod u₂) (.ofZMod v₂)) = .ok R) :
    R = infinity (Curve.ofZMod a b) ∨
      ∃ u v : ZMod m, R = affine (Curve.ofZMod a b) (.ofZMod u) (.ofZMod v) ∧
        (Curve.weierstrass a b).Equation u v := by
  simp only [add, affine, if_true, ne_eq, FieldElement.ofZMod_inj, FieldElement.isZero_ofZMod] at h
  by_cases hx : u₁ = u₂
  · subst hx
    rw [if_neg (by simp)] at h
    by_cases hvertical : ¬ v₁ = v₂ ∨ v₁ = 0
    · rw [if_pos hvertical] at h
      cases h
      exact .inl rfl
    · -- a tangent, which there is none of modulo 2
      obtain ⟨hsame, hzero⟩ := not_or.mp hvertical
      obtain rfl : v₁ = v₂ := not_not.mp hsame
      rw [if_neg hvertical] at h
      by_cases hm : m = 2
      · rw [tangentSlope_of_two hm] at h
        cases h
      · rw [tangentSlope_ofZMod hm u₁ hzero] at h
        exact .inr (exists_equation_of_reflectThird h₁ h₂
          (fun hopposite => ne_neg_self hm hzero hopposite.2) h)
  · rw [if_pos hx, chordSlope_ofZMod (a := a) (b := b) v₁ v₂ hx] at h
    exact .inr (exists_equation_of_reflectThird h₁ h₂ (fun hopposite => hx hopposite.1) h)

end Residues

/-! ## Every field -/

section Residues

variable {m : ℕ} [Fact m.Prime] {a b : ZMod m}

theorem satisfies_ofZMod_iff {u v : ZMod m} :
    Satisfies (Curve.ofZMod a b) (.ofZMod u) (.ofZMod v) ↔
      (Curve.weierstrass a b).Equation u v := by
  have hequation : (((FieldElement.ofZMod v).num : ZMod m) ^ 2 =
      ((FieldElement.ofZMod u).num : ZMod m) ^ 3 + (Curve.ofZMod a b).a.num *
        (FieldElement.ofZMod u).num + (Curve.ofZMod a b).b.num) ↔
      (Curve.weierstrass a b).Equation u v := by
    rw [equation_iff]
    simp only [Curve.ofZMod, FieldElement.num_ofZMod, ZMod.natCast_zmod_val]
    ring_nf
  rw [← hequation]
  exact ⟨fun h => h.equation (Fact.out : m.Prime), fun h => ⟨rfl, rfl, rfl, fun _ => h⟩⟩

/-- The coordinates of a point on a curve of residues are residues that satisfy its equation. -/
theorem Satisfies.exists_equation {x y : FieldElement} (h : Satisfies (Curve.ofZMod a b) x y) :
    ∃ u v : ZMod m, x = .ofZMod u ∧ y = .ofZMod v ∧ (Curve.weierstrass a b).Equation u v := by
  obtain ⟨u, rfl⟩ := FieldElement.exists_ofZMod (p := m) h.a_modulus.symm
  obtain ⟨v, rfl⟩ := FieldElement.exists_ofZMod (p := m) h.y_modulus
  exact ⟨u, v, rfl, rfl, satisfies_ofZMod_iff.mp h⟩

end Residues

/-- Only the equation of residues is to be shown, modulo whichever prime. -/
theorem Satisfies.of_equation {curve : Curve} {x y : FieldElement} (hy : y.modulus = x.modulus)
    (ha : curve.a.modulus = x.modulus) (hb : curve.b.modulus = x.modulus)
    (h : ∀ {m : ℕ} [Fact m.Prime] {a b u v : ZMod m}, curve = Curve.ofZMod a b → x = .ofZMod u →
      y = .ofZMod v → (Curve.weierstrass a b).Equation u v) : Satisfies curve x y := by
  refine ⟨hy, ha, hb, fun hprime => ?_⟩
  obtain ⟨m, hm⟩ : ∃ m, x.modulus = m := ⟨_, rfl⟩
  have : Fact m.Prime := ⟨hm ▸ hprime⟩
  obtain ⟨a, hcurveA⟩ := FieldElement.exists_ofZMod (ha.trans hm)
  obtain ⟨b, hcurveB⟩ := FieldElement.exists_ofZMod (hb.trans hm)
  obtain ⟨v, rfl⟩ := FieldElement.exists_ofZMod (hy.trans hm)
  obtain ⟨u, rfl⟩ := FieldElement.exists_ofZMod hm
  have hcurve : curve = Curve.ofZMod a b := by rw [Curve.ofZMod, ← hcurveA, ← hcurveB]
  have hsatisfies := satisfies_ofZMod_iff.mpr (h hcurve rfl rfl)
  rw [← hcurve] at hsatisfies
  exact hsatisfies.equation hprime

/-! ## Operations -/

namespace IsPlaced

variable {curve : Curve} {P Q R T : Point}

theorem infinity : IsPlaced (infinity curve) := by
  intro x y h
  cases h

/-- Coordinates are checked against the equation, and each operation of the check against the
fields. -/
theorem ofCoordinates {x y : FieldElement} (h : ofCoordinates curve x y = .ok P) : IsPlaced P := by
  obtain ⟨rfl, hx, hy, hb⟩ := eq_affine_of_ofCoordinates h
  rintro _ _ ⟨⟩
  refine .of_equation (hy.trans hx.symm) hx.symm (hb.trans hx.symm) ?_
  rintro m _ a b u v rfl rfl rfl
  obtain ⟨u', v', hequation, hu, hv, -⟩ := ofCoordinates_eq_ok_iff.mp h
  obtain rfl := FieldElement.ofZMod_injective hu
  obtain rfl := FieldElement.ofZMod_injective hv
  exact equation_iff.mpr hequation

/-- The chord and the tangent rule do not leave a curve. -/
theorem add (hP : IsPlaced P) (hQ : IsPlaced Q) (h : P.add Q = .ok R) : IsPlaced R := by
  obtain ⟨hcurve, rfl | rfl | rfl | ⟨x₁, y₁, x₂, y₂, slope, hfirst, hsecond, hthird⟩⟩ := add_cases h
  · exact hP
  · exact hQ
  · exact infinity
  · obtain ⟨curve, coordinates⟩ := P
    obtain ⟨curve', coordinates'⟩ := Q
    dsimp only at hcurve hfirst hsecond hthird
    subst hcurve hfirst hsecond
    obtain ⟨x₃, y₃, rfl, hx₃, hy₃⟩ := exists_of_reflectThird hthird
    have h₁ := hP x₁ y₁ rfl
    have h₂ := hQ x₂ y₂ rfl
    rintro _ _ ⟨⟩
    refine .of_equation (hy₃.trans hx₃.symm) (h₁.a_modulus.trans hx₃.symm)
      (h₁.b_modulus.trans hx₃.symm) ?_
    rintro m _ a b u v rfl rfl rfl
    obtain ⟨u₁, v₁, rfl, rfl, hequation₁⟩ := h₁.exists_equation
    obtain ⟨u₂, v₂, rfl, rfl, hequation₂⟩ := h₂.exists_equation
    rcases exists_equation_of_add hequation₁ hequation₂ h with hinfinity | ⟨u', v', hsum, hequation⟩
    · cases hinfinity
    · simp only [affine, Point.mk.injEq, Option.some.injEq, Prod.mk.injEq,
        FieldElement.ofZMod_inj, true_and] at hsum
      obtain ⟨rfl, rfl⟩ := hsum
      exact hequation

/-- Doubling and adding does not leave a curve. -/
theorem addMultiple {scalar : ℕ} (hT : IsPlaced T) (hP : IsPlaced P)
    (h : T.addMultiple P scalar = .ok R) : IsPlaced R := by
  induction scalar using Nat.strong_induction_on generalizing T P with
  | _ scalar ih =>
    unfold Point.addMultiple at h
    by_cases hscalar : scalar = 0
    · rw [if_pos hscalar] at h
      cases h
      exact hT
    · rw [if_neg hscalar] at h
      have hhalf : scalar / 2 < scalar := by omega
      by_cases hodd : scalar % 2 = 1
      · rw [if_pos hodd] at h
        obtain ⟨total, htotal, h⟩ := bind_eq_ok_iff.mp h
        obtain ⟨double, hdouble, h⟩ := bind_eq_ok_iff.mp h
        exact ih _ hhalf (hT.add hP htotal) (hP.add hP hdouble) h
      · rw [if_neg hodd, ok_bind] at h
        obtain ⟨double, hdouble, h⟩ := bind_eq_ok_iff.mp h
        exact ih _ hhalf hT (hP.add hP hdouble) h

theorem scalarMul {scalar : ℕ} (hP : IsPlaced P) (h : P.scalarMul scalar = .ok R) : IsPlaced R :=
  infinity.addMultiple hP h

end IsPlaced

/-- A point is on its curve, however it came about. -/
theorem Obtained.isPlaced {P : Point} (h : Obtained P) : IsPlaced P := by
  induction h with
  | infinity curve => exact .infinity
  | generator =>
    obtain ⟨x, -, h⟩ := bind_eq_ok_iff.mp Secp256k1.point_generator
    obtain ⟨y, -, h⟩ := bind_eq_ok_iff.mp h
    exact .ofCoordinates h
  | ofCoordinates h => exact .ofCoordinates h
  | ofSec h =>
    obtain ⟨⟨x, y, hcoordinates⟩, -⟩ := toSec_of_ofSec h
    exact .ofCoordinates hcoordinates
  | add _ _ h ihP ihQ => exact ihP.add ihQ h
  | scalarMul _ h ih => exact ih.scalarMul h
  | mul _ h ih => exact ih.scalarMul h

/-- Whatever is calculated with field elements, on the two numbers of each alone, no number is
subtracted from a smaller one and nothing is taken modulo zero; the results are those of the
elements that carry their bounds, so that each modulus is above 1 and each residue below it. A point
with coordinates, however it came about, is of one field with its curve and, modulo a prime,
satisfies the curve's equation. -/
theorem values_in_domain (steps : List Calculation) {P : Point} (hP : Obtained P) :
    (∃ elements, RawElement.run steps = .ok elements ∧
      elements = (FieldElement.calculate steps).map FieldElement.raw ∧
      ∀ x ∈ elements, 1 < x.modulus ∧ x.num < x.modulus) ∧
    ∀ x y, P.coordinates = some (x, y) → Satisfies P.curve x y := by
  refine ⟨⟨_, FieldElement.raw_calculate steps, rfl, ?_⟩, hP.isPlaced⟩
  intro x hx
  obtain ⟨element, -, rfl⟩ := List.mem_map.mp hx
  exact ⟨element.one_lt_modulus, element.num_lt_modulus⟩

/-! On the cuspidal curve `y² = x³` modulo 7 the double of `(1, 1)` is `(2, 1)`. Modulo 6 the
"inverse" of 3 is 3, whose product with 3 is not 1. -/

/-- The residue 0 modulo 7. -/
def zero7 : FieldElement := ⟨0, 7, by decide, by decide⟩

/-- The curve `y² = x³` modulo 7. -/
def cusp7 : Curve := ⟨zero7, zero7⟩

/-- The point of the cuspidal curve with the given coordinates. -/
def onCusp7 (x y : ℕ) : Point := affine cusp7 (zero7.withNum x) (zero7.withNum y)

/-- A calculation modulo 6. -/
def steps6 : List Calculation :=
  [.create 3 6, .unary .inverse 0, .binary .divide 0 1, .binary .subtract 2 0, .unary (.pow (-7)) 3]

theorem values_in_domain_cusp7 :
    Obtained (onCusp7 2 1) ∧ Satisfies cusp7 (zero7.withNum 2) (zero7.withNum 1) ∧
      RawElement.run steps6 = .ok ([3, 3, 3, 0, 0].map (⟨·, 6⟩)) := by
  have hpoint : ofCoordinates cusp7 (zero7.withNum 1) (zero7.withNum 1) = .ok (onCusp7 1 1) :=
    eq_ok_of_toOption (by decide +kernel)
  have hdouble : (onCusp7 1 1).add (onCusp7 1 1) = .ok (onCusp7 2 1) :=
    eq_ok_of_toOption (by decide +kernel)
  have hobtained : Obtained (onCusp7 2 1) :=
    .add (.ofCoordinates hpoint) (.ofCoordinates hpoint) hdouble
  have hvalues : (FieldElement.calculate steps6).map FieldElement.raw =
      [3, 3, 3, 0, 0].map (⟨·, 6⟩) := by decide +kernel
  obtain ⟨⟨_, hrun, rfl, -⟩, hplaced⟩ := values_in_domain steps6 hobtained
  rw [hvalues] at hrun
  exact ⟨hobtained, hplaced _ _ rfl, hrun⟩

end CoinSpend.Point
