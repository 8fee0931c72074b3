import CoinSpend.Proofs.Curve.Points

/-!
# Multiples of points

Doubling and adding takes the bits of the scalar from the lowest and has the point doubled for the
next bit, also after the last one. On a nonsingular curve no doubling and no addition fails, be it
with the point at infinity or with a point of order two, and what is collected is the sum of as many
copies of the point as the scalar says.

Results:
* `Point.repeatedSum_ofAffine`: copies of a point, added one by one, make its multiple in the group.
* `Point.scalarMul_of_prime`: multiples by doubling and adding.
-/

namespace CoinSpend

namespace Point

/-- The sum of `count` copies of a point, each added to those before it. -/
def repeatedSum (P : Point) : ℕ → Except Error Point
  | 0 => .ok (infinity P.curve)
  | count + 1 => do (← P.repeatedSum count).add P

theorem repeatedSum_ofAffine {m : ℕ} [Fact m.Prime] (hm : m ≠ 2) {a b : ZMod m}
    (P : (Curve.weierstrass a b).Point) (count : ℕ) :
    (ofAffine P).repeatedSum count = .ok (ofAffine (count • P)) := by
  induction count with
  | zero => rw [repeatedSum, curve_ofAffine, zero_nsmul, ofAffine_zero]
  | succ count ih => rw [repeatedSum, ih, ok_bind, add_ofAffine hm, succ_nsmul]

/-- A point of a curve is a multiple in the group, of exactly one point of the group. -/
theorem existsUnique_ofAffine_nsmul {m : ℕ} [Fact m.Prime] {a b : ZMod m}
    (P : (Curve.weierstrass a b).Point) (k : ℕ) :
    ∃! G : (Curve.weierstrass a b).Point, ofAffine G = ofAffine P ∧
      ofAffine (k • G) = ofAffine (k • P) := by
  refine ⟨P, ⟨rfl, rfl⟩, ?_⟩
  intro G hG
  exact ofAffine_injective hG.1

/-- Modulo a prime above 3, and with a discriminant other than zero, doubling and adding never fails
and sums up as many copies of a point as the scalar says, which is the multiple in the group of the
curve's points. So the multiple by a sum is a sum of multiples, and the multiple by a product is a
multiple of a multiple. -/
theorem scalarMul_of_prime {p : ℕ} (hp : p.Prime) (hlt : 3 < p) {curve : Curve}
    (ha : curve.a.modulus = p) (hb : curve.b.modulus = p)
    (hdiscriminant : (4 * curve.a.num ^ 3 + 27 * curve.b.num ^ 2) % p ≠ 0) {P : Point}
    (hP : IsOn curve P) (j k : ℕ) :
    haveI : Fact p.Prime := ⟨hp⟩
    (∃ Q, P.scalarMul k = .ok Q ∧ P.repeatedSum k = .ok Q ∧ IsOn curve Q ∧
      ∃! G : (Curve.weierstrass (curve.a.num : ZMod p) (curve.b.num : ZMod p)).Point,
        ofAffine G = P ∧ ofAffine (k • G) = Q) ∧
      P.scalarMul (j + k) = (do (← P.scalarMul j).add (← P.scalarMul k)) ∧
      P.scalarMul (j * k) = (do (← P.scalarMul k).scalarMul j) := by
  have : Fact p.Prime := ⟨hp⟩
  have hm : p ≠ 2 := by omega
  have hab := Curve.discriminant_ne_zero hdiscriminant
  have hcurve := Curve.ofZMod_num ha hb
  rw [← hcurve] at hP
  obtain ⟨G, rfl⟩ := (isOn_iff hm hab).mp hP
  have hmultiple := (isOn_iff hm hab).mpr ⟨k • G, rfl⟩
  rw [hcurve] at hmultiple
  simp only [scalarMul_ofAffine hm, repeatedSum_ofAffine hm, ok_bind, add_ofAffine hm]
  refine ⟨⟨_, rfl, rfl, hmultiple, existsUnique_ofAffine_nsmul G k⟩, ?_, ?_⟩
  · rw [add_nsmul]
  · rw [mul_nsmul']

/-! On the curve `y² = x³ + x` modulo 223 the point `(0, 0)` has order two, so every second double
of it is the point at infinity. -/

/-- The curve `y² = x³ + x` modulo 223. -/
def curve223 : Curve := ⟨⟨1, 223, by decide, by decide⟩, ⟨0, 223, by decide, by decide⟩⟩

/-- The origin, which has order two. -/
def origin223 : Point :=
  .affine curve223 ⟨0, 223, by decide, by decide⟩ ⟨0, 223, by decide, by decide⟩

theorem scalarMul_origin223 :
    (223).Prime ∧ (4 * curve223.a.num ^ 3 + 27 * curve223.b.num ^ 2) % 223 ≠ 0 ∧
      IsOn curve223 origin223 ∧ origin223.scalarMul 5 = .ok origin223 ∧
      origin223.scalarMul (3 + 5) =
        (do (← origin223.scalarMul 3).add (← origin223.scalarMul 5)) ∧
      origin223.scalarMul (3 * 5) = (do (← origin223.scalarMul 5).scalarMul 3) := by
  have hprime : (223).Prime := by norm_num
  have hdiscriminant : (4 * curve223.a.num ^ 3 + 27 * curve223.b.num ^ 2) % 223 ≠ 0 := by decide
  have hpoint : IsOn curve223 origin223 :=
    .finite (rfl : ofCoordinates curve223 ⟨0, 223, by decide, by decide⟩
      ⟨0, 223, by decide, by decide⟩ = .ok origin223)
  obtain ⟨⟨Q, hmultiple, hsum, -, -⟩, hadd, hmul⟩ :=
    scalarMul_of_prime hprime (by decide) rfl rfl hdiscriminant hpoint 3 5
  have hfive : origin223.repeatedSum 5 = .ok origin223 := rfl
  rw [← hfive, hsum]
  exact ⟨hprime, hdiscriminant, hpoint, hmultiple, hadd, hmul⟩

end Point

end CoinSpend
