import CoinSpend.Curve.Group
import CoinSpend.Proofs.Field.Residue
import Mathlib

/-!
# The two moduli are prime

Lucas's test proves a number prime from the prime factors of its predecessor. A chain of tests, each
with factors that are small or that an earlier test has proved prime, leads to the modulus of the
field and to the order of the generator.

Results:
* `LucasTest.prime_of_chainPasses`: every number in a chain of passed tests is prime.
* `prime_p`, `prime_n`: the modulus of secp256k1's field and the order of its generator are prime.
-/

namespace CoinSpend

/-! ## Lucas's test -/

/-- Lucas's test of a number: a base, and the prime factors of the number's predecessor. -/
structure LucasTest where
  number : ℕ
  base : ℕ
  factors : List ℕ

namespace LucasTest

/-- Whether the base has the predecessor of the number as its multiplicative order. -/
def passes (t : LucasTest) : Bool :=
  1 < t.number && t.factors.prod + 1 == t.number
    && Modular.powMod t.base (t.number - 1) t.number == 1
    && t.factors.all fun q => Modular.powMod t.base ((t.number - 1) / q) t.number != 1

/-- Whether tests pass that take their factors from the known primes and from earlier tests. -/
def chainPasses : List ℕ → List LucasTest → Bool
  | _, [] => true
  | known, t :: ts =>
    t.factors.all (known.contains ·) && t.passes && chainPasses (t.number :: known) ts

theorem natCast_pow_eq_one_iff {modulus : ℕ} (h : 1 < modulus) (base exponent : ℕ) :
    (base : ZMod modulus) ^ exponent = 1 ↔ Modular.powMod base exponent modulus = 1 := by
  rw [Modular.powMod_eq, ← Nat.cast_pow, ← Nat.cast_one (R := ZMod modulus),
    ZMod.natCast_eq_natCast_iff', Nat.mod_eq_of_lt h]

theorem prime_of_passes {t : LucasTest} (hfactors : ∀ q ∈ t.factors, q.Prime)
    (h : t.passes = true) : t.number.Prime := by
  simp only [passes, Bool.and_eq_true, decide_eq_true_eq, beq_iff_eq, List.all_eq_true,
    bne_iff_ne, ne_eq] at h
  obtain ⟨⟨⟨hone, hprod⟩, hpow⟩, hproper⟩ := h
  apply lucas_primality t.number (t.base : ZMod t.number)
  · exact (natCast_pow_eq_one_iff hone _ _).mpr hpow
  · intro q hq hdvd
    rw [ne_eq, natCast_pow_eq_one_iff hone]
    rw [← hprod, Nat.add_sub_cancel] at hdvd
    obtain ⟨factor, hmem, hqfactor⟩ := hq.prime.dvd_prod_iff.mp hdvd
    rw [(Nat.prime_dvd_prime_iff_eq hq (hfactors factor hmem)).mp hqfactor]
    exact hproper factor hmem

/-- Every number in a chain of passed tests is prime. -/
theorem prime_of_chainPasses {known : List ℕ} {tests : List LucasTest}
    (hknown : ∀ q ∈ known, q.Prime) (h : chainPasses known tests = true) :
    ∀ t ∈ tests, t.number.Prime := by
  induction tests generalizing known with
  | nil => simp
  | cons t ts ih =>
    simp only [chainPasses, Bool.and_eq_true, List.all_eq_true, List.contains_eq_mem,
      decide_eq_true_eq] at h
    obtain ⟨⟨hfactors, hpasses⟩, hrest⟩ := h
    have ht : t.number.Prime := prime_of_passes (fun q hq => hknown q (hfactors q hq)) hpasses
    have hknown' : ∀ q ∈ t.number :: known, q.Prime := by
      simpa only [List.forall_mem_cons] using ⟨ht, hknown⟩
    simpa only [List.forall_mem_cons] using ⟨ht, ih hknown' hrest⟩

end LucasTest

/-! ## The moduli -/

namespace Secp256k1

/-- The small primes that occur as factors in `primalityTests`. -/
def smallPrimes : List ℕ := [
  2, 3, 5, 7, 11, 13, 17, 29, 31, 41, 53, 59, 97, 109, 149, 293, 461, 631, 797, 971, 1373, 1627,
  1871, 2011, 2621, 2657, 4051, 4423, 5323, 7723, 9349, 13441, 16699, 20113, 24809, 28181, 41201,
  85831, 96557, 120233, 305873]

/-- The tests that lead to `p` and to `n`. -/
def primalityTests : List LucasTest := [
  ⟨13331831, 13, [2, 5, 971, 1373]⟩,
  ⟨173378833005251801, 6, [2, 2, 2, 5, 5, 2621, 24809, 13331831]⟩,
  ⟨22149492674086928081353, 5, [2, 2, 2, 3, 5323, 173378833005251801]⟩,
  ⟨132896956044521568488119, 6, [2, 3, 22149492674086928081353]⟩,
  ⟨1206781, 10, [2, 2, 3, 5, 20113]⟩,
  ⟨7240687, 3, [2, 3, 1206781]⟩,
  ⟨107590001, 3, [2, 2, 2, 2, 5, 5, 5, 5, 7, 29, 53]⟩,
  ⟨255515944373312847190720520512484175977, 3,
    [2, 2, 2, 7, 7, 11, 1627, 2657, 4423, 41201, 96557, 7240687, 107590001]⟩,
  ⟨205115282021455665897114700593932402728804164701536103180137503955397371, 10,
    [2, 3, 5, 29, 29, 31, 7723, 132896956044521568488119,
      255515944373312847190720520512484175977]⟩,
  ⟨p, 3, [2, 3, 7, 13441,
    205115282021455665897114700593932402728804164701536103180137503955397371]⟩,
  ⟨4681609, 23, [2, 2, 2, 3, 97, 2011]⟩,
  ⟨107361793816595537, 3, [2, 2, 2, 2, 16699, 85831, 4681609]⟩,
  ⟨44706919, 6, [2, 3, 797, 9349]⟩,
  ⟨174723607534414371449, 3, [2, 2, 2, 17, 59, 4051, 120233, 44706919]⟩,
  ⟨545358713, 5, [2, 2, 2, 41, 59, 28181]⟩,
  ⟨1627771, 3, [2, 3, 5, 29, 1871]⟩,
  ⟨297159362677, 2, [2, 2, 3, 3, 11, 461, 1627771]⟩,
  ⟨29047611873442575647497758179, 2, [2, 293, 305873, 545358713, 297159362677]⟩,
  ⟨341948486974166000522343609283189, 2, [2, 2, 3, 3, 3, 109, 29047611873442575647497758179]⟩,
  ⟨n, 7, [2, 2, 2, 2, 2, 2, 3, 149, 631, 107361793816595537, 174723607534414371449,
    341948486974166000522343609283189]⟩]

theorem prime_of_mem_smallPrimes : ∀ q ∈ smallPrimes, q.Prime := by
  norm_num [smallPrimes]

theorem chainPasses_primalityTests :
    LucasTest.chainPasses smallPrimes primalityTests = true := by
  decide +kernel

theorem prime_of_mem_primalityTests {q : ℕ} (h : q ∈ primalityTests.map LucasTest.number) :
    q.Prime := by
  obtain ⟨t, ht, rfl⟩ := List.mem_map.mp h
  exact LucasTest.prime_of_chainPasses prime_of_mem_smallPrimes chainPasses_primalityTests t ht

/-- The modulus of the field is prime. -/
theorem prime_p : p.Prime := prime_of_mem_primalityTests (by simp [primalityTests])

/-- The order of the generator is prime. -/
theorem prime_n : n.Prime := prime_of_mem_primalityTests (by simp [primalityTests])

instance : Fact p.Prime := ⟨prime_p⟩

instance : Fact n.Prime := ⟨prime_n⟩

end Secp256k1

end CoinSpend
