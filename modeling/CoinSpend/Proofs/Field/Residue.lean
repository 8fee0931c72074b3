import CoinSpend.Field.Arithmetic
import Mathlib

/-!
# Field elements as residues

`FieldElement.ofZMod` embeds the residues modulo `m` into the field elements of modulus `m`, and
every field element is of this form. The operations of the library are those of `ZMod m`, so
identities between field elements are proved by `ring` and `field_simp` in `ZMod m`.

Results:
* `Modular.powMod_eq`: the power by repeated squaring is the power.
* `ofZMod_add`, `ofZMod_sub`, `ofZMod_mul`, `ofZMod_scale`, `ofZMod_powNat`: the operations of a
  ring, for every modulus above 1.
* `inverseMod?_eq`: modulo a prime, the power to `m - 2` is the inverse.
* `ofZMod_div`: modulo a prime, division by anything but zero.
-/

namespace CoinSpend

/-! ## Powers by repeated squaring -/

namespace Modular

theorem mulPowMod_eq (factor base exponent modulus : Nat) :
    mulPowMod factor base exponent modulus = factor * base ^ exponent % modulus := by
  induction exponent using Nat.strongRecOn generalizing factor base with
  | ind exponent ih =>
    unfold mulPowMod
    split
    · next h => simp [h]
    · next h =>
      rw [ih (exponent / 2) (by omega)]
      have hpow : ∀ e, (base * base % modulus) ^ e % modulus = base ^ (2 * e) % modulus := by
        intro e
        rw [← Nat.pow_mod, Nat.pow_mul, Nat.pow_two]
      split
      · next hodd =>
        rw [Nat.mul_mod, hpow, Nat.mod_mod, ← Nat.mul_mod, Nat.mul_assoc, ← Nat.pow_succ']
        congr 3
        omega
      · next heven =>
        rw [Nat.mul_mod, hpow, ← Nat.mul_mod]
        congr 3
        omega

theorem powMod_eq (base exponent modulus : Nat) :
    powMod base exponent modulus = base ^ exponent % modulus := by
  simp [powMod, mulPowMod_eq]

theorem powMod_lt {base exponent modulus : Nat} (h : 0 < modulus) :
    powMod base exponent modulus < modulus := by
  rw [powMod_eq]
  exact Nat.mod_lt _ h

end Modular

namespace FieldElement

/-! ## Every modulus -/

section Ring

variable {m : ℕ} [Fact (1 < m)]

/-- The field element that stands for a residue. -/
def ofZMod (a : ZMod m) : FieldElement := ⟨a.val, m, Fact.out, a.val_lt⟩

@[simp] theorem num_ofZMod (a : ZMod m) : (ofZMod a).num = a.val := rfl

@[simp] theorem modulus_ofZMod (a : ZMod m) : (ofZMod a).modulus = m := rfl

theorem ofZMod_injective : Function.Injective (ofZMod (m := m)) := by
  intro a b h
  exact ZMod.val_injective m (congrArg num h)

@[simp] theorem ofZMod_inj {a b : ZMod m} : ofZMod a = ofZMod b ↔ a = b :=
  ofZMod_injective.eq_iff

/-- A field element of modulus `m` stands for the residue of its number. -/
theorem ofZMod_num (x : FieldElement) (h : x.modulus = m) : ofZMod (x.num : ZMod m) = x := by
  obtain ⟨num, modulus, hone, hlt⟩ := x
  subst h
  simp only [ofZMod, ZMod.val_cast_of_lt hlt]

/-- The residue of a number, in the field of an element of modulus `m`. -/
theorem withNum_ofZMod (a : ZMod m) (value : ℕ) :
    (ofZMod a).withNum value = ofZMod (value : ZMod m) := by
  simp only [withNum, ofZMod, ZMod.val_natCast]

theorem combine_ofZMod (operation : FieldOperation) (a b : ZMod m) (value : ℕ) :
    combine operation (ofZMod a) (ofZMod b) value = .ok (ofZMod (value : ZMod m)) := by
  rw [combine, if_pos (by simp), withNum_ofZMod]

/-- Elements of different fields are not combined. -/
theorem modulus_eq_of_combine {operation : FieldOperation} {x y z : FieldElement} {value : ℕ}
    (h : combine operation x y value = .ok z) : y.modulus = x.modulus ∧ z.modulus = x.modulus := by
  unfold combine at h
  split at h
  · next hsame =>
    cases h
    exact ⟨hsame.symm, rfl⟩
  · simp at h

@[simp] theorem ofZMod_add (a b : ZMod m) : (ofZMod a).add (ofZMod b) = .ok (ofZMod (a + b)) := by
  rw [add, combine_ofZMod]
  simp

@[simp] theorem ofZMod_sub (a b : ZMod m) : (ofZMod a).sub (ofZMod b) = .ok (ofZMod (a - b)) := by
  have hle : b.val ≤ a.val + m := by
    have := b.val_lt
    omega
  rw [sub, combine_ofZMod]
  simp [Nat.cast_sub hle]

@[simp] theorem ofZMod_mul (a b : ZMod m) : (ofZMod a).mul (ofZMod b) = .ok (ofZMod (a * b)) := by
  rw [mul, combine_ofZMod]
  simp

@[simp] theorem ofZMod_scale (a : ZMod m) (factor : ℕ) :
    (ofZMod a).scale factor = ofZMod (a * (factor : ZMod m)) := by
  rw [scale, withNum_ofZMod]
  simp

@[simp] theorem ofZMod_powNat (a : ZMod m) (exponent : ℕ) :
    (ofZMod a).powNat exponent = ofZMod (a ^ (exponent % (m - 1))) := by
  rw [powNat, num_ofZMod, modulus_ofZMod, Modular.powMod_eq, withNum_ofZMod]
  simp

@[simp] theorem zeroOf_ofZMod (a : ZMod m) : (ofZMod a).zeroOf = ofZMod (0 : ZMod m) := by
  rw [zeroOf, withNum_ofZMod]
  simp

/-- The field element with the number of a residue stands for it. -/
theorem ofNat_val (a : ZMod m) : ofNat a.val m = .ok (ofZMod a) := by
  rw [ofNat, dif_pos Fact.out, dif_pos a.val_lt]
  rfl

@[simp] theorem isZero_ofZMod (a : ZMod m) : (ofZMod a).isZero = true ↔ a = 0 := by
  simp [isZero]

end Ring

/-! ## Prime moduli -/

section Prime

variable {m : ℕ} [Fact m.Prime]

/-- Modulo a prime, the power to `m - 2` is the inverse. -/
theorem pow_modulus_sub_two {a : ZMod m} (h : a ≠ 0) : a ^ (m - 2) = a⁻¹ := by
  have hm : 2 ≤ m := (Fact.out : m.Prime).two_le
  have hpow : a ^ (m - 2) * a = 1 := by
    rw [← pow_succ, show m - 2 + 1 = m - 1 by omega]
    exact ZMod.pow_card_sub_one_eq_one h
  exact eq_inv_of_mul_eq_one_left hpow

/-- Modulo a prime, exactly the numbers that are not multiples of it have an inverse. -/
theorem inverseMod?_eq (value : ℕ) :
    Modular.inverseMod? value m =
      if (value : ZMod m) = 0 then none else some ((value : ZMod m)⁻¹).val := by
  have hzero : value % m = 0 ↔ (value : ZMod m) = 0 := by
    rw [ZMod.natCast_eq_zero_iff, Nat.dvd_iff_mod_eq_zero]
  unfold Modular.inverseMod?
  by_cases h : (value : ZMod m) = 0
  · rw [if_pos (hzero.mpr h), if_pos h]
  · rw [if_neg (fun h' => h (hzero.mp h')), if_neg h, Modular.powMod_eq,
      ← ZMod.val_natCast]
    push_cast
    rw [ZMod.natCast_mod, pow_modulus_sub_two h]

theorem inverse_ofZMod {a : ZMod m} (h : a ≠ 0) : (ofZMod a).inverse = .ok (ofZMod a⁻¹) := by
  have hcast : ((a.val : ℕ) : ZMod m) = a := ZMod.natCast_zmod_val a
  unfold inverse
  rw [num_ofZMod, modulus_ofZMod, inverseMod?_eq, hcast, if_neg h]
  simp [withNum_ofZMod]

theorem ofZMod_div (a : ZMod m) {b : ZMod m} (h : b ≠ 0) :
    (ofZMod a).div (ofZMod b) = .ok (ofZMod (a / b)) := by
  rw [div, if_pos (by simp), inverse_ofZMod h, div_eq_mul_inv]
  exact ofZMod_mul a b⁻¹

end Prime

end FieldElement

end CoinSpend
