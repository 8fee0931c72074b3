import CoinSpend.Proofs.Curve.Primality
import CoinSpend.Proofs.Field.Residue
import CoinSpend.Proofs.Outcome
import Mathlib

/-!
# The laws of a field

The elements of one modulus are the residues modulo it, one for each, and their operations are those
of the ring of residues. Modulo a prime, the power to `modulus - 2` is the inverse of everything but
zero, also modulo 2, where it is the power to zero. Elements of different moduli have nothing to do
with each other: every operation on two of them is refused.

Results:
* `represents_iff`: an element of a modulus stands for exactly one residue.
* `ringOperations`, `fieldOperations`: the operations against those of the residues.
* `binary_of_ne`: elements of different fields.
-/

namespace CoinSpend.FieldElement

/-- The element stands for a residue. -/
structure Represents {m : ℕ} (x : FieldElement) (a : ZMod m) : Prop where
  modulus : x.modulus = m
  num : (x.num : ZMod m) = a

/-- The operation on two elements. -/
def binary (x y : FieldElement) : FieldOperation → Except Error FieldElement
  | .add => x.add y
  | .subtract => x.sub y
  | .multiply => x.mul y
  | .divide => x.div y

/-- The elements of modulus `m` stand for the residues modulo `m`, and are added, subtracted and
multiplied like them. -/
structure RingOperations (m : ℕ) : Prop where
  existsUnique (a : ZMod m) : ∃! x : FieldElement, x.Represents a
  add {x y : FieldElement} {a b : ZMod m} : x.Represents a → y.Represents b →
    ∃ z, x.add y = .ok z ∧ z.Represents (a + b)
  sub {x y : FieldElement} {a b : ZMod m} : x.Represents a → y.Represents b →
    ∃ z, x.sub y = .ok z ∧ z.Represents (a - b)
  mul {x y : FieldElement} {a b : ZMod m} : x.Represents a → y.Represents b →
    ∃ z, x.mul y = .ok z ∧ z.Represents (a * b)
  scale {x : FieldElement} {a : ZMod m} (factor : ℕ) : x.Represents a →
    (x.scale factor).Represents (a * (factor : ZMod m))

/-- Of the elements of modulus `p` all but zero have an inverse, and may be divided by. -/
structure FieldOperations (p : ℕ) : Prop where
  inverse_fails_iff {x : FieldElement} : x.modulus = p → ((∃ e, x.inverse = .error e) ↔ x.num = 0)
  mul_inverse {x : FieldElement} : x.modulus = p → x.num ≠ 0 →
    ∃ i, x.inverse = .ok i ∧ ∃ one, x.mul i = .ok one ∧ one.Represents (1 : ZMod p)
  div_fails_iff {x y : FieldElement} : x.modulus = p → y.modulus = p →
    ((∃ e, x.div y = .error e) ↔ y.num = 0)
  div_mul {x y : FieldElement} : x.modulus = p → y.modulus = p → y.num ≠ 0 →
    ∃ quotient, x.div y = .ok quotient ∧ quotient.mul y = .ok x
  /-- The number need not be reduced. -/
  inverseMod_eq_none_iff (value : ℕ) : Modular.inverseMod? value p = none ↔ p ∣ value
  inverseMod {value : ℕ} : ¬ p ∣ value →
    ∃ i < p, Modular.inverseMod? value p = some i ∧ value * i % p = 1

/-! ## Residues -/

section Ring

variable {m : ℕ} [Fact (1 < m)]

/-- An element stands for a residue exactly if it is the element of that residue. -/
theorem represents_iff {x : FieldElement} {a : ZMod m} : x.Represents a ↔ x = ofZMod a := by
  constructor
  · rintro ⟨hmodulus, rfl⟩
    exact (ofZMod_num x hmodulus).symm
  · rintro rfl
    exact ⟨rfl, ZMod.natCast_zmod_val a⟩

theorem represents_ofZMod (a : ZMod m) : (ofZMod a).Represents a := represents_iff.mpr rfl

theorem ringOperations : RingOperations m where
  existsUnique a := ⟨ofZMod a, represents_ofZMod a, fun _ hx => represents_iff.mp hx⟩
  add hx hy := by
    rw [represents_iff.mp hx, represents_iff.mp hy]
    exact ⟨_, ofZMod_add _ _, represents_ofZMod _⟩
  sub hx hy := by
    rw [represents_iff.mp hx, represents_iff.mp hy]
    exact ⟨_, ofZMod_sub _ _, represents_ofZMod _⟩
  mul hx hy := by
    rw [represents_iff.mp hx, represents_iff.mp hy]
    exact ⟨_, ofZMod_mul _ _, represents_ofZMod _⟩
  scale factor hx := by
    rw [represents_iff.mp hx, ofZMod_scale]
    exact represents_ofZMod _

end Ring

/-! ## Inverses -/

section Prime

variable {p : ℕ} [Fact p.Prime]

theorem exists_ofZMod {x : FieldElement} (h : x.modulus = p) : ∃ a : ZMod p, x = ofZMod a :=
  ⟨x.num, (ofZMod_num x h).symm⟩

/-- Modulo a prime, a number that the prime does not divide times its inverse leaves one. -/
theorem exists_inverseMod {value : ℕ} (h : ¬ p ∣ value) :
    ∃ i < p, Modular.inverseMod? value p = some i ∧ value * i % p = 1 := by
  have hne : (value : ZMod p) ≠ 0 := by
    rwa [ne_eq, ZMod.natCast_eq_zero_iff]
  have hprime : 1 < p := (Fact.out : p.Prime).one_lt
  refine ⟨((value : ZMod p)⁻¹).val, ZMod.val_lt _, by rw [inverseMod?_eq, if_neg hne], ?_⟩
  have hproduct : ((value * ((value : ZMod p)⁻¹).val : ℕ) : ZMod p) = (1 : ℕ) := by
    rw [Nat.cast_mul, ZMod.natCast_zmod_val, mul_inv_cancel₀ hne, Nat.cast_one]
  have hmod := (ZMod.natCast_eq_natCast_iff' _ _ p).mp hproduct
  rwa [Nat.mod_eq_of_lt hprime] at hmod

theorem div_ofZMod_zero (a : ZMod p) :
    (ofZMod a).div (ofZMod (0 : ZMod p)) = .error .zeroInverse := by
  have hzero : (ofZMod (0 : ZMod p)).inverse = .error .zeroInverse :=
    inverse_eq_error_iff.mpr ⟨ZMod.val_zero, rfl⟩
  rw [div, if_pos (by simp), hzero, error_bind]

theorem fieldOperations : FieldOperations p where
  inverse_fails_iff hx := by
    simp [inverse_eq_error_iff]
  mul_inverse hx hne := by
    obtain ⟨a, rfl⟩ := exists_ofZMod hx
    rw [num_ofZMod, ne_eq, ZMod.val_eq_zero] at hne
    refine ⟨_, inverse_ofZMod hne, _, ofZMod_mul _ _, ?_⟩
    rw [mul_inv_cancel₀ hne]
    exact represents_ofZMod 1
  div_fails_iff hx hy := by
    obtain ⟨a, rfl⟩ := exists_ofZMod hx
    obtain ⟨b, rfl⟩ := exists_ofZMod hy
    rw [num_ofZMod, ZMod.val_eq_zero]
    by_cases hb : b = 0
    · simp [hb, div_ofZMod_zero]
    · simp [hb, ofZMod_div]
  div_mul hx hy hne := by
    obtain ⟨a, rfl⟩ := exists_ofZMod hx
    obtain ⟨b, rfl⟩ := exists_ofZMod hy
    rw [num_ofZMod, ne_eq, ZMod.val_eq_zero] at hne
    refine ⟨_, ofZMod_div a hne, ?_⟩
    rw [ofZMod_mul, div_mul_cancel₀ a hne]
  inverseMod_eq_none_iff value := Modular.inverseMod?_eq_none_iff
  inverseMod h := exists_inverseMod h

end Prime

/-! ## Different fields -/

/-- Elements of different fields are not combined. -/
theorem binary_of_ne {x y : FieldElement} (h : x.modulus ≠ y.modulus)
    (operation : FieldOperation) :
    x.binary y operation = .error (.differentFields operation x.modulus y.modulus) := by
  cases operation with
  | add => exact if_neg h
  | subtract => exact if_neg h
  | multiply => exact if_neg h
  | divide => exact if_neg h

/-- The elements of a modulus above 1 are the residues modulo it, with the operations of their ring;
if the modulus is prime, everything but zero has an inverse and may be divided by. Each operation
on elements of different moduli is refused, as a value outside its domain. -/
theorem operations_of_residues {m : ℕ} (hm : 1 < m) :
    RingOperations m ∧ (m.Prime → FieldOperations m) ∧
      ∀ x y : FieldElement, x.modulus ≠ y.modulus → ∀ operation, ∃ e,
        x.binary y operation = .error e ∧ e.kind = .validation := by
  have : Fact (1 < m) := ⟨hm⟩
  refine ⟨ringOperations, fun hprime => ?_, fun x y hne operation => ?_⟩
  · have : Fact m.Prime := ⟨hprime⟩
    exact fieldOperations
  · exact ⟨_, binary_of_ne hne operation, rfl⟩

/-- The residue 2 modulo 13. -/
def two13 : FieldElement := ⟨2, 13, by decide, by decide⟩

/-- The residue 2 modulo 19. -/
def two19 : FieldElement := ⟨2, 19, by decide, by decide⟩

/-- The field of secp256k1, and two elements of other fields. -/
theorem operations_of_residues_secp256k1 :
    1 < Secp256k1.p ∧ RingOperations Secp256k1.p ∧ Secp256k1.p.Prime ∧
      FieldOperations Secp256k1.p ∧ two13.modulus ≠ two19.modulus ∧
      ∃ e, two13.binary two19 .divide = .error e ∧ e.kind = .validation := by
  have hmodulus : 1 < Secp256k1.p := by decide
  have hne : two13.modulus ≠ two19.modulus := by decide
  obtain ⟨hring, hfield, hrefused⟩ := operations_of_residues hmodulus
  exact ⟨hmodulus, hring, Secp256k1.prime_p, hfield Secp256k1.prime_p, hne,
    hrefused two13 two19 hne .divide⟩

end CoinSpend.FieldElement
