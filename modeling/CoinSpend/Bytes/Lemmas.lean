import CoinSpend.Bytes
import Mathlib

/-!
# The numbers that byte strings write

Strings of `n` bytes and the numbers below `256 ^ n` are the same thing in two forms.

* `toNatLE_ofNatLE`, `toNatBE_ofNatBE`: `n` bytes of a number are its residue modulo `256 ^ n`.
* `width_le_iff`: a number fits into `n` bytes exactly when it is below `256 ^ n`.
* `toNatBE_digitsBE`, `toNatLE_digitsLE`: the digits of a number write it.
* `digitsLE_toNatLE`, `digitsBE_toNatBE`: bytes whose most significant one is not zero are the
  digits of the number that they write.
-/

namespace CoinSpend.Bytes

theorem toNatLE_append (as bs : Bytes) :
    toNatLE (as ++ bs) = toNatLE as + 256 ^ as.length * toNatLE bs := by
  induction as with
  | nil => simp [toNatLE]
  | cons a as ih =>
    simp only [List.cons_append, toNatLE, ih, List.length_cons, Nat.pow_succ]
    rw [Nat.mul_add, ← Nat.mul_assoc, Nat.mul_comm 256 (256 ^ as.length), Nat.add_assoc]

theorem toNatLE_lt (bs : Bytes) : toNatLE bs < 256 ^ bs.length := by
  induction bs with
  | nil => simp [toNatLE]
  | cons b bs ih =>
    have hb : b.toNat < 256 := b.toNat_lt
    simp only [toNatLE, List.length_cons, Nat.pow_succ]
    omega

theorem toNatLE_ofNatLE (n value : Nat) : toNatLE (ofNatLE n value) = value % 256 ^ n := by
  induction n generalizing value with
  | zero => simp [ofNatLE, toNatLE, Nat.mod_one]
  | succ n ih =>
    have hb : (UInt8.ofNat value).toNat = value % 256 := by simp
    rw [ofNatLE, toNatLE, ih, hb, Nat.pow_succ, Nat.mul_comm (256 ^ n) 256, Nat.mod_mul]

theorem toNatBE_lt (bs : Bytes) : toNatBE bs < 256 ^ bs.length := by
  simpa [toNatBE] using toNatLE_lt bs.reverse

theorem toNatBE_ofNatBE (n value : Nat) : toNatBE (ofNatBE n value) = value % 256 ^ n := by
  simp [toNatBE, ofNatBE, toNatLE_ofNatLE]

theorem toNatBE_cons_zero (bs : Bytes) : toNatBE (0 :: bs) = toNatBE bs := by
  simp [toNatBE, toNatLE_append, toNatLE]

/-- A number fits into `n` bytes exactly when it is below `256 ^ n`. -/
theorem width_le_iff (n value : Nat) : width value ≤ n ↔ value < 256 ^ n := by
  induction n generalizing value with
  | zero =>
    unfold width
    split <;> simp_all
  | succ n ih =>
    have hstep : value / 256 < 256 ^ n ↔ value < 256 ^ (n + 1) := by
      rw [Nat.pow_succ]
      omega
    unfold width
    split
    · next h => simp [h]
    · rw [Nat.add_le_add_iff_right, ih, hstep]

theorem toNatBE_digitsBE (value : Nat) : toNatBE (digitsBE value) = value := by
  have hlt : value < 256 ^ width value := (width_le_iff _ _).mp (Nat.le_refl _)
  rw [digitsBE, toNatBE_ofNatBE, Nat.mod_eq_of_lt hlt]

theorem toNatLE_digitsLE (value : ℕ) : toNatLE (digitsLE value) = value := by
  have hlt : value < 256 ^ width value := (width_le_iff _ _).mp (Nat.le_refl _)
  rw [digitsLE, toNatLE_ofNatLE, Nat.mod_eq_of_lt hlt]

theorem toNatLE_concat (front : Bytes) (last : UInt8) :
    toNatLE (front ++ [last]) = toNatLE front + 256 ^ front.length * last.toNat := by
  rw [toNatLE_append]
  rfl

theorem toNatLE_concat_zero (bytes : Bytes) : toNatLE (bytes ++ [0]) = toNatLE bytes := by
  rw [toNatLE_concat, UInt8.toNat_zero, Nat.mul_zero, Nat.add_zero]

theorem pow_le_toNatLE_concat (front : Bytes) {last : UInt8} (h : last ≠ 0) :
    256 ^ front.length ≤ toNatLE (front ++ [last]) := by
  have hlast : 0 < last.toNat := by
    rw [Nat.pos_iff_ne_zero, ne_eq, ← UInt8.toNat_zero, UInt8.toNat_inj]
    exact h
  rw [toNatLE_concat]
  exact (Nat.le_mul_of_pos_right _ hlast).trans (Nat.le_add_left _ _)

theorem toNatLE_concat_ne_zero (front : Bytes) {last : UInt8} (h : last ≠ 0) :
    toNatLE (front ++ [last]) ≠ 0 :=
  Nat.ne_of_gt ((Nat.pow_pos (by decide)).trans_le (pow_le_toNatLE_concat front h))

/-- The number that bytes write leaves their top bit clear exactly if the last byte does. -/
theorem two_mul_toNatLE_concat_lt_iff (front : Bytes) (last : UInt8) :
    2 * toNatLE (front ++ [last]) < 256 ^ (front.length + 1) ↔ last < 0x80 := by
  have hfront := toNatLE_lt front
  rw [toNatLE_concat, Nat.pow_succ, UInt8.lt_iff_toNat_lt]
  change _ ↔ last.toNat + 1 ≤ 128
  constructor
  · intro hlt
    by_contra hge
    have htop : 128 ≤ last.toNat := Nat.le_of_lt_succ (Nat.not_le.mp hge)
    have hpower := Nat.mul_le_mul_left (256 ^ front.length) htop
    omega
  · intro hlt
    have hpower := Nat.mul_le_mul_left (256 ^ front.length) hlt
    rw [Nat.mul_add, Nat.mul_one] at hpower
    omega

/-- Bytes whose last is not zero are the digits of the number that they write. -/
theorem digitsLE_toNatLE (front : Bytes) {last : UInt8} (h : last ≠ 0) :
    digitsLE (toNatLE (front ++ [last])) = front ++ [last] := by
  have hwidth : width (toNatLE (front ++ [last])) = (front ++ [last]).length := by
    apply Nat.le_antisymm ((width_le_iff _ _).mpr (toNatLE_lt _))
    rw [List.length_append, List.length_singleton, Nat.succ_le_iff, ← Nat.not_le, width_le_iff,
      Nat.not_lt]
    exact pow_le_toNatLE_concat front h
  rw [digitsLE, hwidth, ofNatLE_toNatLE]

/-- The last digit of a number other than zero is not zero. -/
theorem exists_digitsLE {value : ℕ} (h : value ≠ 0) :
    ∃ front last, digitsLE value = front ++ [last] ∧ last ≠ 0 := by
  have hvalue := toNatLE_digitsLE value
  have hlength : (digitsLE value).length = width value := length_ofNatLE _ _
  rcases List.eq_nil_or_concat' (digitsLE value) with hnil | ⟨front, last, hdigits⟩
  · rw [hnil] at hvalue
    exact absurd hvalue.symm h
  · refine ⟨front, last, hdigits, ?_⟩
    rintro rfl
    rw [hdigits, toNatLE_concat, UInt8.toNat_zero, Nat.mul_zero, Nat.add_zero] at hvalue
    rw [hdigits, List.length_append, List.length_singleton] at hlength
    have hfits : width value ≤ front.length := (width_le_iff _ _).mpr (hvalue ▸ toNatLE_lt front)
    omega

/-- The first digit of a number other than zero is not zero. -/
theorem exists_digitsBE {value : ℕ} (h : value ≠ 0) :
    ∃ first rest, digitsBE value = first :: rest ∧ first ≠ 0 := by
  obtain ⟨front, last, hdigits, hlast⟩ := exists_digitsLE h
  have hreverse : digitsBE value = (digitsLE value).reverse := rfl
  refine ⟨last, front.reverse, ?_, hlast⟩
  rw [hreverse, hdigits, List.reverse_append, List.reverse_singleton, List.singleton_append]

theorem pow_le_toNatBE_cons {first : UInt8} (h : first ≠ 0) (rest : Bytes) :
    256 ^ rest.length ≤ toNatBE (first :: rest) := by
  have hle := pow_le_toNatLE_concat rest.reverse h
  rwa [List.length_reverse, ← List.reverse_cons] at hle

theorem digitsBE_zero : digitsBE 0 = [] := by
  have hwidth : width 0 = 0 := by
    unfold width
    exact if_pos rfl
  rw [digitsBE, hwidth]
  rfl

theorem head?_digitsBE (value : ℕ) : (digitsBE value).head? ≠ some 0 := by
  by_cases h : value = 0
  · rw [h, digitsBE_zero]
    simp
  · obtain ⟨first, rest, hdigits, hfirst⟩ := exists_digitsBE h
    rw [hdigits, List.head?_cons]
    simpa using hfirst

/-- Bytes that do not start with a zero are the digits of the number that they write. -/
theorem digitsBE_toNatBE {bytes : Bytes} (h : bytes.head? ≠ some 0) :
    digitsBE (toNatBE bytes) = bytes := by
  cases bytes with
  | nil => exact digitsBE_zero
  | cons first bytes =>
    have hfirst : first ≠ 0 := by simpa using h
    have hreverse : (first :: bytes).reverse = bytes.reverse ++ [first] := List.reverse_cons
    have hdigits := digitsLE_toNatLE bytes.reverse hfirst
    rw [← hreverse] at hdigits
    have hback := congrArg List.reverse hdigits
    rwa [List.reverse_reverse] at hback

/-- What holds of 256 bytes holds of every byte. -/
theorem forall_byte {p : UInt8 → Prop} (h : ∀ n : Fin 256, p (UInt8.ofNat n)) (b : UInt8) :
    p b := by
  have hb := h ⟨b.toNat, b.toNat_lt⟩
  rwa [UInt8.ofNat_toNat] at hb

end CoinSpend.Bytes
