import CoinSpend.Proofs.Field.Residue
import CoinSpend.Proofs.Outcome
import Mathlib

/-!
# Powers with a reduced exponent

A power is taken after its exponent was reduced modulo `modulus - 1`. Modulo a prime this changes
nothing for an element other than zero, whose power to `modulus - 1` is one, so negative exponents
have a meaning for it. Zero has no such period: its power to a positive multiple of `modulus - 1` is
taken for that to zero, which is one, where the product of so many zeros is zero.

Results:
* `repeatedProduct_ofZMod`: copies of an element, multiplied one by one, make its power.
* `pow_floorMod`: an element other than zero does not tell an exponent from the reduced one.
* `pow_mod_eq_iff`: which powers to a natural exponent the reduction leaves as they are.
* `pow_of_prime`: the powers of an element against products of copies of it.
-/

namespace CoinSpend.FieldElement

/-- The product of `count` copies of an element, each multiplied to those before it. -/
def repeatedProduct (x : FieldElement) : ℕ → Except Error FieldElement
  | 0 => .ok (x.withNum 1)
  | count + 1 => do (← x.repeatedProduct count).mul x

section Ring

variable {m : ℕ} [Fact (1 < m)]

theorem repeatedProduct_ofZMod (a : ZMod m) (count : ℕ) :
    (ofZMod a).repeatedProduct count = .ok (ofZMod (a ^ count)) := by
  induction count with
  | zero => rw [repeatedProduct, withNum_ofZMod, Nat.cast_one, pow_zero]
  | succ count ih => rw [repeatedProduct, ih, ok_bind, ofZMod_mul, pow_succ]

theorem ofZMod_pow (a : ZMod m) (exponent : ℤ) :
    (ofZMod a).pow exponent = ofZMod (a ^ Modular.floorMod exponent (m - 1)) := by
  rw [pow, num_ofZMod, modulus_ofZMod, Modular.powMod_eq, withNum_ofZMod]
  simp

end Ring

section Prime

variable {m : ℕ} [Fact m.Prime]

/-- An element other than zero does not tell an exponent from the reduced one. -/
theorem pow_floorMod {a : ZMod m} (h : a ≠ 0) (exponent : ℤ) :
    a ^ Modular.floorMod exponent (m - 1) = a ^ exponent := by
  have hm : 2 ≤ m := (Fact.out : m.Prime).two_le
  have hperiod : a ^ ((m - 1 : ℕ) : ℤ) = 1 := by
    rw [zpow_natCast]
    exact ZMod.pow_card_sub_one_eq_one h
  have hreduced : (Modular.floorMod exponent (m - 1) : ℤ) = exponent % ((m - 1 : ℕ) : ℤ) := by
    have hnonneg : 0 ≤ exponent % ((m - 1 : ℕ) : ℤ) := Int.emod_nonneg _ (by omega)
    exact Int.toNat_of_nonneg hnonneg
  calc a ^ Modular.floorMod exponent (m - 1)
      = a ^ (exponent % ((m - 1 : ℕ) : ℤ)) := by rw [← zpow_natCast, hreduced]
    _ = (a ^ ((m - 1 : ℕ) : ℤ)) ^ (exponent / ((m - 1 : ℕ) : ℤ)) *
          a ^ (exponent % ((m - 1 : ℕ) : ℤ)) := by rw [hperiod, one_zpow, one_mul]
    _ = a ^ exponent := by rw [← zpow_mul, ← zpow_add₀ h, Int.mul_ediv_add_emod]

/-- The power of an element other than zero to any integer. -/
theorem ofZMod_pow_of_ne_zero {a : ZMod m} (h : a ≠ 0) (exponent : ℤ) :
    (ofZMod a).pow exponent = ofZMod (a ^ exponent) := by
  rw [ofZMod_pow, pow_floorMod h]

/-- The reduction changes the power of zero to a positive multiple of `m - 1`, and no other. -/
theorem pow_mod_eq_iff (a : ZMod m) (exponent : ℕ) :
    a ^ (exponent % (m - 1)) = a ^ exponent ↔ a ≠ 0 ∨ exponent = 0 ∨ ¬(m - 1) ∣ exponent := by
  by_cases ha : a = 0
  · subst ha
    rw [Nat.dvd_iff_mod_eq_zero]
    by_cases hmod : exponent % (m - 1) = 0
    · by_cases hzero : exponent = 0
      · simp [hzero]
      · simp [hmod, hzero]
    · have hzero : exponent ≠ 0 := by
        rintro rfl
        exact hmod (Nat.zero_mod _)
      simp [hmod, hzero]
  · have hpow := pow_floorMod ha exponent
    rw [Modular.floorMod_natCast, zpow_natCast] at hpow
    simp [ha, hpow]

/-- The modulus itself is reduced to one, except for the modulus 2. -/
theorem ofZMod_powNat_modulus_iff (a : ZMod m) :
    (ofZMod a).powNat m = ofZMod a ↔ a ≠ 0 ∨ m ≠ 2 := by
  have hm : 2 ≤ m := (Fact.out : m.Prime).two_le
  have hdvd : (m - 1) ∣ m ↔ m = 2 := by
    have hsucc : (m - 1) ∣ (m - 1) + 1 ↔ m - 1 = 1 := by
      rw [Nat.dvd_add_right dvd_rfl, Nat.dvd_one]
    rw [Nat.sub_add_cancel (by omega)] at hsucc
    rw [hsucc]
    omega
  have hfermat : ofZMod a = ofZMod (a ^ m) := by rw [ZMod.pow_card]
  rw [ofZMod_powNat, hfermat, ofZMod_inj, pow_mod_eq_iff, hdvd]
  have hzero : m ≠ 0 := by omega
  simp [hzero]

end Prime

/-- Modulo a prime, the power of an element to a natural number is the product of so many copies of
it, except where the element is zero and the exponent a positive multiple of `modulus - 1`. Natural
exponents are integer exponents. Integer exponents of an element other than zero add up, and the
power to `-1` is the inverse. The power to the modulus is the element, except where the element is
zero and the modulus 2. -/
theorem pow_of_prime {x : FieldElement} (hprime : x.modulus.Prime) :
    (∀ exponent : ℕ, x.pow exponent = x.powNat exponent ∧
      ∃ y, x.repeatedProduct exponent = .ok y ∧
        (x.powNat exponent = y ↔
          x.num ≠ 0 ∨ exponent = 0 ∨ ¬(x.modulus - 1) ∣ exponent)) ∧
    (x.num ≠ 0 → x.inverse = .ok (x.pow (-1)) ∧
      ∀ e₁ e₂ : ℤ, (x.pow e₁).mul (x.pow e₂) = .ok (x.pow (e₁ + e₂))) ∧
    (x.powNat x.modulus = x ↔ x.num ≠ 0 ∨ x.modulus ≠ 2) := by
  obtain ⟨m, hm⟩ : ∃ m, x.modulus = m := ⟨_, rfl⟩
  rw [hm] at hprime
  have : Fact m.Prime := ⟨hprime⟩
  obtain ⟨a, rfl⟩ : ∃ a : ZMod m, x = ofZMod a := ⟨_, (ofZMod_num x hm).symm⟩
  have hzero : (ofZMod a).num ≠ 0 ↔ a ≠ 0 := by
    rw [num_ofZMod, ne_eq, ZMod.val_eq_zero]
  rw [modulus_ofZMod, hzero]
  refine ⟨fun exponent => ⟨pow_natCast _ _, _, repeatedProduct_ofZMod a exponent, ?_⟩,
    fun ha => ⟨?_, fun e₁ e₂ => ?_⟩, ofZMod_powNat_modulus_iff a⟩
  · rw [ofZMod_powNat, ofZMod_inj, pow_mod_eq_iff]
  · rw [inverse_ofZMod ha, ofZMod_pow_of_ne_zero ha, zpow_neg_one]
  · simp only [ofZMod_pow_of_ne_zero ha, ofZMod_mul, zpow_add₀ ha]

/-- The residue 17 modulo 31. -/
def seventeen31 : FieldElement := ⟨17, 31, by decide, by decide⟩

theorem pow_seventeen31 :
    (31).Prime ∧ seventeen31.num ≠ 0 ∧ seventeen31.repeatedProduct 3 = .ok (seventeen31.powNat 3) ∧
      seventeen31.inverse = .ok (seventeen31.pow (-1)) ∧
      (seventeen31.pow 65).mul (seventeen31.pow (-68)) = .ok (seventeen31.pow (-3)) ∧
      seventeen31.powNat 31 = seventeen31 := by
  have hprime : (31).Prime := by norm_num
  have hne : seventeen31.num ≠ 0 := by decide
  obtain ⟨hnat, hint, hfermat⟩ := pow_of_prime (x := seventeen31) hprime
  obtain ⟨-, y, hy, hpower⟩ := hnat 3
  obtain ⟨hinverse, hadd⟩ := hint hne
  rw [← hpower.mpr (.inl hne)] at hy
  exact ⟨hprime, hne, hy, hinverse, hadd 65 (-68), hfermat.mpr (.inl hne)⟩

/-- The residue 0 modulo 3. -/
def zero3 : FieldElement := ⟨0, 3, by decide, by decide⟩

/-- The residue 0 modulo 2. -/
def zero2 : FieldElement := ⟨0, 2, by decide, by decide⟩

/-- Modulo 3 the square of zero is one, where zero times zero is zero, and modulo 2 the power of
zero to the modulus is one. -/
theorem powNat_zero :
    (3).Prime ∧ zero3.repeatedProduct 2 = .ok zero3 ∧ zero3.powNat 2 = zero3.withNum 1 ∧
      zero3.withNum 1 ≠ zero3 ∧ (2).Prime ∧ zero2.repeatedProduct 2 = .ok zero2 ∧
      zero2.powNat zero2.modulus ≠ zero2 := by
  have hzero3 : zero3 = ofZMod (0 : ZMod 3) := rfl
  have hsquare : zero3.powNat 2 = zero3.withNum 1 := by
    rw [hzero3, ofZMod_powNat]
    rfl
  have hzero2 : zero2 = ofZMod (0 : ZMod 2) := rfl
  have hmodulus : zero2.powNat zero2.modulus ≠ zero2 := by
    rw [hzero2, ofZMod_powNat, ne_eq, ofZMod_inj]
    decide
  exact ⟨by norm_num, rfl, hsquare, by decide, by norm_num, rfl, hmodulus⟩

end CoinSpend.FieldElement
