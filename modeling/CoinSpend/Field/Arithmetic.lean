import CoinSpend.Error

/-!
# Arithmetic of residues

Powers and inverses modulo a number, and the operations of a field on residues that carry their
modulus. Two operands of different moduli are refused, with the moduli and the operation in the
error.

* `Modular.inverseMod?_eq_none_iff`: exactly the multiples of the modulus have no inverse.
* `FieldElement.inverse_eq_error_iff`: exactly zero has no inverse.
-/

namespace CoinSpend

/-! ## Powers and inverses -/

namespace Modular

/-- `factor * base ^ exponent` modulo `modulus`, by repeated squaring. -/
def mulPowMod (factor base exponent modulus : Nat) : Nat :=
  if exponent = 0 then factor % modulus
  else
    mulPowMod (if exponent % 2 = 1 then factor * base % modulus else factor)
      (base * base % modulus) (exponent / 2) modulus
termination_by exponent

/-- `base ^ exponent` modulo `modulus`. Model of `mod_pow`. -/
def powMod (base exponent modulus : Nat) : Nat := mulPowMod 1 base exponent modulus

/-- The inverse of a number modulo a prime, as its power to `modulus - 2`. Multiples of the modulus
have none. Model of `mod_inverse`. -/
def inverseMod? (value modulus : Nat) : Option Nat :=
  if value % modulus = 0 then none else some (powMod (value % modulus) (modulus - 2) modulus)

/-- The residue of an integer, between zero and the modulus. Model of `mod_floor`. -/
def floorMod (value : Int) (modulus : Nat) : Nat := (value % (modulus : Int)).toNat

theorem floorMod_natCast (value modulus : Nat) : floorMod value modulus = value % modulus := rfl

theorem inverseMod?_eq_none_iff {value modulus : Nat} :
    inverseMod? value modulus = none ↔ modulus ∣ value := by
  unfold inverseMod?
  split
  · next h => simp [Nat.dvd_of_mod_eq_zero h]
  · next h => simpa using fun hd => h (Nat.mod_eq_zero_of_dvd hd)

end Modular

/-! ## Operations of a field -/

namespace FieldElement

open CoinSpend.Modular

/-- The residue `num` of a field. Model of `FieldElement.with_prime`. -/
def ofNat (num modulus : Nat) : Except Error FieldElement :=
  if hmodulus : 1 < modulus then
    if hnum : num < modulus then .ok ⟨num, modulus, hmodulus, hnum⟩
    else .error (.residueTooLarge num modulus)
  else .error (.modulusTooSmall modulus)

/-- The residue `num` of the field of `x`. Model of `FieldElement.sibling`. -/
def sibling (x : FieldElement) (num : Nat) : Except Error FieldElement := ofNat num x.modulus

/-- The residue of `value`, if `x` and `y` are of the same field. The refusal models
`FieldElement.check_same_field`. -/
def combine (operation : FieldOperation) (x y : FieldElement) (value : Nat) :
    Except Error FieldElement :=
  if x.modulus = y.modulus then .ok (x.withNum value)
  else .error (.differentFields operation x.modulus y.modulus)

/-- The sum of two elements. Model of `FieldElement.add`. -/
def add (x y : FieldElement) : Except Error FieldElement := combine .add x y (x.num + y.num)

/-- The difference of two elements. Model of `FieldElement.sub`. -/
def sub (x y : FieldElement) : Except Error FieldElement :=
  combine .subtract x y (x.num + x.modulus - y.num)

/-- The product of two elements. Model of `FieldElement.mul`. -/
def mul (x y : FieldElement) : Except Error FieldElement := combine .multiply x y (x.num * y.num)

/-- The product with a number. Model of `FieldElement.scale`. -/
def scale (x : FieldElement) (factor : Nat) : FieldElement := x.withNum (x.num * factor)

/-- The power to a natural exponent, which is first reduced modulo `modulus - 1`. Model of
`FieldElement.pow_u`. -/
def powNat (x : FieldElement) (exponent : Nat) : FieldElement :=
  x.withNum (powMod x.num (exponent % (x.modulus - 1)) x.modulus)

/-- The power to an integer exponent, which is first reduced modulo `modulus - 1`. Model of
`FieldElement.pow`. -/
def pow (x : FieldElement) (exponent : Int) : FieldElement :=
  x.withNum (powMod x.num (floorMod exponent (x.modulus - 1)) x.modulus)

/-- The inverse of an element other than zero. Model of `FieldElement.inverse`. -/
def inverse (x : FieldElement) : Except Error FieldElement :=
  match inverseMod? x.num x.modulus with
  | some value => .ok (x.withNum value)
  | none => .error .zeroInverse

/-- The quotient of two elements. Model of `FieldElement.div`. -/
def div (x y : FieldElement) : Except Error FieldElement :=
  if x.modulus = y.modulus then y.inverse >>= x.mul
  else .error (.differentFields .divide x.modulus y.modulus)

/-- A natural exponent is an integer exponent. -/
theorem pow_natCast (x : FieldElement) (exponent : Nat) : x.pow exponent = x.powNat exponent := by
  rw [pow, powNat, floorMod_natCast]

theorem inverse_eq_error_iff {x : FieldElement} {e : Error} :
    x.inverse = .error e ↔ x.num = 0 ∧ e = .zeroInverse := by
  have hnone : inverseMod? x.num x.modulus = none ↔ x.num = 0 := by
    rw [inverseMod?_eq_none_iff]
    exact ⟨fun h => Nat.eq_zero_of_dvd_of_lt h x.num_lt_modulus, fun h => h ▸ Nat.dvd_zero _⟩
  unfold inverse
  split
  · next value h => simp [← hnone, h]
  · next h => simp [hnone.mp h, eq_comm]

end FieldElement

end CoinSpend
