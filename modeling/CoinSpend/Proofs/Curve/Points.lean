import CoinSpend.Proofs.Curve.Generator
import CoinSpend.Proofs.Outcome

/-!
# The points of a curve

The points of a curve are the one at infinity and those that are built from coordinates, which are
then checked against the curve's equation. Modulo a prime above 3, and with a discriminant other
than zero, these are exactly the points that `Point.ofAffine` embeds, so they form a commutative
group.

Results:
* `Point.ofCoordinates_eq_ok_iff`: which coordinates make a point.
* `Point.isOn_iff`: the points of a curve are the embedded ones.
* `Point.addition_of_prime`: the laws of the group.
-/

namespace CoinSpend

open WeierstrassCurve (Affine)

namespace Point

/-- The points of a curve, by the ways to build them. -/
inductive IsOn (curve : Curve) : Point → Prop
  /-- The point at infinity. -/
  | infinity : IsOn curve (infinity curve)
  /-- A point with coordinates that satisfy the curve's equation. -/
  | finite {x y : FieldElement} {P : Point} (h : ofCoordinates curve x y = .ok P) : IsOn curve P

/-- The laws of a commutative group, for the points of a curve and their addition, which never
fails. -/
structure Addition (curve : Curve) : Prop where
  closed {P Q : Point} : IsOn curve P → IsOn curve Q → ∃ R, P.add Q = .ok R ∧ IsOn curve R
  comm {P Q : Point} : IsOn curve P → IsOn curve Q → P.add Q = Q.add P
  assoc {P Q R : Point} : IsOn curve P → IsOn curve Q → IsOn curve R →
    (P.add Q >>= fun sum => sum.add R) = (Q.add R >>= fun sum => P.add sum)
  infinity_add {P : Point} : IsOn curve P → (Point.infinity curve).add P = .ok P
  add_infinity {P : Point} : IsOn curve P → P.add (Point.infinity curve) = .ok P
  /-- The point with the negative of the y coordinate is the inverse. -/
  add_neg {x y : FieldElement} {P : Point} : ofCoordinates curve x y = .ok P →
    ∃ Q, ofCoordinates curve x (y.withNum (y.modulus - y.num)) = .ok Q ∧
      P.add Q = .ok (Point.infinity curve)

/-! ## Coordinates -/

/-- Coordinates that make a point are of the field of the curve, as both coefficients are. -/
theorem eq_affine_of_ofCoordinates {curve : Curve} {x y : FieldElement} {P : Point}
    (h : ofCoordinates curve x y = .ok P) :
    P = affine curve x y ∧ x.modulus = curve.a.modulus ∧ y.modulus = curve.a.modulus ∧
      curve.b.modulus = curve.a.modulus := by
  unfold ofCoordinates at h
  obtain ⟨left, hleft, h⟩ := bind_eq_ok_iff.mp h
  obtain ⟨square, hsquare, h⟩ := bind_eq_ok_iff.mp h
  obtain ⟨cube, hcube, h⟩ := bind_eq_ok_iff.mp h
  obtain ⟨linear, hlinear, h⟩ := bind_eq_ok_iff.mp h
  obtain ⟨sum, hsum, h⟩ := bind_eq_ok_iff.mp h
  obtain ⟨right, hright, h⟩ := bind_eq_ok_iff.mp h
  split at h
  · next heq =>
    obtain ⟨-, hy⟩ := FieldElement.modulus_eq_of_combine hleft
    obtain ⟨hx, -⟩ := FieldElement.modulus_eq_of_combine hlinear
    obtain ⟨hcubex, hcubes⟩ := FieldElement.modulus_eq_of_combine hcube
    obtain ⟨-, hsums⟩ := FieldElement.modulus_eq_of_combine hsum
    obtain ⟨hb, hrights⟩ := FieldElement.modulus_eq_of_combine hright
    rw [hsums, hcubes, ← hcubex, hx] at hb
    rw [heq, hrights, hsums, hcubes, ← hcubex, hx] at hy
    exact ⟨(Except.ok.inj h).symm, hx, hy.symm, hb⟩
  · simp at h

section Residues

variable {m : ℕ} [Fact m.Prime] {a b : ZMod m} {x y : FieldElement} {P : Point}

/-- Coordinates make a point exactly if they stand for residues that satisfy the equation. -/
theorem ofCoordinates_eq_ok_iff :
    ofCoordinates (Curve.ofZMod a b) x y = .ok P ↔
      ∃ u v : ZMod m, v * v = u * u * u + a * u + b ∧ x = .ofZMod u ∧ y = .ofZMod v ∧
        P = affine (Curve.ofZMod a b) (.ofZMod u) (.ofZMod v) := by
  constructor
  · intro h
    obtain ⟨-, hx, hy, -⟩ := eq_affine_of_ofCoordinates h
    have hxu := FieldElement.ofZMod_num x (m := m) hx
    have hyv := FieldElement.ofZMod_num y (m := m) hy
    rw [← hxu, ← hyv] at h
    simp only [ofCoordinates, Curve.ofZMod, FieldElement.ofZMod_mul, FieldElement.ofZMod_add,
      ok_bind, FieldElement.ofZMod_inj] at h
    split at h
    · next hequation =>
      cases h
      exact ⟨x.num, y.num, hequation, hxu.symm, hyv.symm, rfl⟩
    · simp at h
  · rintro ⟨u, v, hequation, rfl, rfl, rfl⟩
    exact ofCoordinates_ofZMod hequation

variable (hm : m ≠ 2) (hab : 4 * a ^ 3 + 27 * b ^ 2 ≠ 0)
include hm hab

/-- The points of a curve are those of the group. -/
theorem isOn_iff : IsOn (Curve.ofZMod a b) P ↔
    ∃ Q : (Curve.weierstrass a b).Point, ofAffine Q = P := by
  constructor
  · intro h
    cases h with
    | infinity => exact ⟨0, rfl⟩
    | finite h =>
      obtain ⟨u, v, hequation, -, -, rfl⟩ := ofCoordinates_eq_ok_iff.mp h
      exact ⟨.some u v ((nonsingular_iff hm hab).mpr hequation), rfl⟩
  · rintro ⟨Q, rfl⟩
    cases Q with
    | zero => exact .infinity
    | some u v h => exact .finite (ofCoordinates_ofZMod ((nonsingular_iff hm hab).mp h))

/-- The sum of a point and its reflection is the point at infinity. -/
theorem add_ofCoordinates_neg (h : ofCoordinates (Curve.ofZMod a b) x y = .ok P) :
    ∃ Q, ofCoordinates (Curve.ofZMod a b) x (y.withNum (y.modulus - y.num)) = .ok Q ∧
      P.add Q = .ok (Point.infinity (Curve.ofZMod a b)) := by
  obtain ⟨u, v, hequation, rfl, rfl, rfl⟩ := ofCoordinates_eq_ok_iff.mp h
  have hnegative : v.val ≤ m := v.val_lt.le
  have hreflection : (FieldElement.ofZMod v).withNum (m - v.val) = .ofZMod (-v) := by
    rw [FieldElement.withNum_ofZMod, Nat.cast_sub hnegative]
    simp
  have hneg : -v * -v = u * u * u + a * u + b := by rw [neg_mul_neg, hequation]
  have hpoint := (nonsingular_iff hm hab).mpr hequation
  have hopposite := (nonsingular_iff hm hab).mpr hneg
  have hsum : Affine.Point.some u v hpoint + .some u (-v) hopposite = 0 :=
    Affine.Point.add_of_Y_eq rfl (by rw [negY_eq, neg_neg])
  refine ⟨ofAffine (.some u (-v) hopposite), ?_, ?_⟩
  · rw [FieldElement.modulus_ofZMod, FieldElement.num_ofZMod, hreflection]
    exact ofCoordinates_ofZMod hneg
  · have hadd := add_ofAffine hm (.some u v hpoint) (.some u (-v) hopposite)
    rw [hsum] at hadd
    exact hadd

/-- The laws of the group hold for the points of the library. -/
theorem addition_ofZMod : Addition (Curve.ofZMod a b) where
  closed hP hQ := by
    obtain ⟨P, rfl⟩ := (isOn_iff hm hab).mp hP
    obtain ⟨Q, rfl⟩ := (isOn_iff hm hab).mp hQ
    exact ⟨_, add_ofAffine hm P Q, (isOn_iff hm hab).mpr ⟨_, rfl⟩⟩
  comm hP hQ := by
    obtain ⟨P, rfl⟩ := (isOn_iff hm hab).mp hP
    obtain ⟨Q, rfl⟩ := (isOn_iff hm hab).mp hQ
    rw [add_ofAffine hm, add_ofAffine hm, add_comm]
  assoc hP hQ hR := by
    obtain ⟨P, rfl⟩ := (isOn_iff hm hab).mp hP
    obtain ⟨Q, rfl⟩ := (isOn_iff hm hab).mp hQ
    obtain ⟨R, rfl⟩ := (isOn_iff hm hab).mp hR
    simp only [add_ofAffine hm, ok_bind, add_assoc]
  infinity_add hP := by
    obtain ⟨P, rfl⟩ := (isOn_iff hm hab).mp hP
    rw [← ofAffine_zero, add_ofAffine hm, zero_add]
  add_infinity hP := by
    obtain ⟨P, rfl⟩ := (isOn_iff hm hab).mp hP
    rw [← ofAffine_zero, add_ofAffine hm, add_zero]
  add_neg h := add_ofCoordinates_neg hm hab h

end Residues

/-! ## Every curve -/

/-- Modulo a prime above 3, the points of a curve whose discriminant is not zero form a commutative
group. -/
theorem addition_of_prime {p : ℕ} (hp : p.Prime) (hlt : 3 < p) {curve : Curve}
    (ha : curve.a.modulus = p) (hb : curve.b.modulus = p)
    (hdiscriminant : (4 * curve.a.num ^ 3 + 27 * curve.b.num ^ 2) % p ≠ 0) : Addition curve := by
  have : Fact p.Prime := ⟨hp⟩
  rw [← Curve.ofZMod_num ha hb]
  exact addition_ofZMod (by omega) (Curve.discriminant_ne_zero hdiscriminant)

/-- The points of secp256k1 form a commutative group. -/
theorem addition_secp256k1 :
    Secp256k1.p.Prime ∧ 3 < Secp256k1.p ∧ Secp256k1.curve.a.modulus = Secp256k1.p ∧
      Secp256k1.curve.b.modulus = Secp256k1.p ∧
      (4 * Secp256k1.curve.a.num ^ 3 + 27 * Secp256k1.curve.b.num ^ 2) % Secp256k1.p ≠ 0 ∧
      Addition Secp256k1.curve :=
  ⟨Secp256k1.prime_p, by decide, rfl, rfl, by decide,
    addition_of_prime Secp256k1.prime_p (by decide) rfl rfl (by decide)⟩

end Point

end CoinSpend
