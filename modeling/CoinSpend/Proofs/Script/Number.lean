import CoinSpend.Bytes.Lemmas
import CoinSpend.Script.Stack
import Mathlib

/-!
# Numbers are written in the fewest bytes

The last byte of an element holds the sign in its top bit. So a number needs one bit more than its
magnitude, and an element can be shortened if its last byte holds nothing but the sign and the byte
before it has the top bit free.

Results:
* `value_encode`: a number is read back from what is written for it.
* `length_encode_le_iff`: in how many bytes a number is written.
* `length_encode_le`: no element that writes the number is shorter.
* `encode_value_iff`: which elements are those that are written.
* `decode_encode_shortest`: all of it together, with the limits on what is read.
-/

namespace CoinSpend.ScriptNumber

/-- The last byte of an element is needed: it holds digits of the magnitude, or the byte before it
has no bit left for the sign. -/
def IsMinimal (element : Bytes) : Prop :=
  element = [] ∨ (∃ front last, element = front ++ [last] ∧ last &&& 0x7f ≠ 0) ∨
    ∃ front before last, element = front ++ [before, last] ∧ 0x80 ≤ before

/-! ## The last byte -/

/-- The last byte of an element, from the sign and the last seven bits of the magnitude. -/
def lastByte (negative : Bool) (digit : UInt8) : UInt8 := if negative then digit ||| 0x80 else digit

theorem lastByte_spec : ∀ digit : UInt8, digit < 0x80 → ∀ negative,
    (lastByte negative digit ≥ 0x80 ↔ negative = true) ∧
      (lastByte negative digit).toNat % 128 = digit.toNat ∧
      lastByte negative digit &&& 0x7f = digit :=
  Bytes.forall_byte (by decide +kernel)

theorem eq_lastByte : ∀ last : UInt8, last &&& 0x7f < 0x80 ∧
    last = lastByte (last ≥ 0x80) (last &&& 0x7f) :=
  Bytes.forall_byte (by decide +kernel)

theorem signMagnitude_cons (b : UInt8) {bs : Bytes} (h : bs ≠ []) :
    signMagnitude (b :: bs) = ((signMagnitude bs).1, b.toNat + 256 * (signMagnitude bs).2) := by
  cases bs with
  | nil => exact absurd rfl h
  | cons c cs => rfl

theorem withSign_cons (negative : Bool) (b : UInt8) {bs : Bytes} (h : bs ≠ []) :
    withSign negative (b :: bs) = b :: withSign negative bs := by
  cases bs with
  | nil => exact absurd rfl h
  | cons c cs => rfl

theorem signMagnitude_lastByte (front : Bytes) {digit : UInt8} (h : digit < 0x80)
    (negative : Bool) : signMagnitude (front ++ [lastByte negative digit]) =
      (negative, Bytes.toNatLE (front ++ [digit])) := by
  obtain ⟨hsign, hdigit, -⟩ := lastByte_spec digit h negative
  induction front with
  | nil =>
    rw [List.nil_append, List.nil_append, signMagnitude, hdigit, Bytes.toNatLE, Bytes.toNatLE]
    simp [hsign]
  | cons b front ih =>
    rw [List.cons_append, signMagnitude_cons b (by simp), ih, List.cons_append, Bytes.toNatLE]

/-- Digits get a byte of their own for the sign if the last of them has no bit left for it. -/
theorem withSign_concat (negative : Bool) (front : Bytes) (last : UInt8) :
    withSign negative (front ++ [last]) =
      if last ≥ 0x80 then front ++ [last] ++ [lastByte negative 0]
      else front ++ [lastByte negative last] := by
  induction front with
  | nil => cases negative <;> rfl
  | cons b front ih =>
    rw [List.cons_append, withSign_cons _ b (by simp), ih]
    split <;> simp

/-- With a sign, digits are read as the number that they write. -/
theorem signMagnitude_withSign (negative : Bool) {digits : Bytes} (h : digits ≠ []) :
    signMagnitude (withSign negative digits) = (negative, Bytes.toNatLE digits) := by
  obtain ⟨front, last, rfl⟩ := (List.eq_nil_or_concat' digits).resolve_left h
  rw [withSign_concat]
  split
  · rw [signMagnitude_lastByte _ (by decide), Bytes.toNatLE_concat_zero]
  · next hlast => exact signMagnitude_lastByte front (UInt8.not_le.mp hlast) negative

/-! ## Numbers -/

variable {n : ℤ} {element : Bytes} {limit : ℕ}

theorem encode_zero : encode 0 = [] := by
  rw [encode, Int.natAbs_zero, Bytes.digitsLE, Bytes.width, if_pos rfl]
  rfl

/-- What is written is read back. -/
theorem value_encode (n : ℤ) : value (encode n) = n := by
  by_cases hn : n = 0
  · subst hn
    rw [encode_zero]
    rfl
  · obtain ⟨front, last, hdigits, -⟩ := Bytes.exists_digitsLE (Int.natAbs_ne_zero.mpr hn)
    unfold value encode
    rw [signMagnitude_withSign _ (by simp [hdigits]), Bytes.toNatLE_digitsLE]
    simp only [decide_eq_true_eq]
    split <;> omega

/-- The magnitude of a number is the number that its digits write, with the top bit of the last one
left for the sign. -/
theorem natAbs_value_lastByte (front : Bytes) {digit : UInt8} (h : digit < 0x80)
    (negative : Bool) : (value (front ++ [lastByte negative digit])).natAbs =
      Bytes.toNatLE (front ++ [digit]) := by
  unfold value
  rw [signMagnitude_lastByte front h]
  split <;> simp

theorem value_lastByte_neg_iff (front : Bytes) {digit : UInt8} (h : digit < 0x80)
    (negative : Bool) (hne : Bytes.toNatLE (front ++ [digit]) ≠ 0) :
    value (front ++ [lastByte negative digit]) < 0 ↔ negative = true := by
  unfold value
  rw [signMagnitude_lastByte front h]
  cases negative
  · simp
  · simp only [if_true, iff_true]
    omega

theorem exists_lastByte (h : element ≠ []) : ∃ front negative digit, digit < 0x80 ∧
    element = front ++ [lastByte negative digit] := by
  obtain ⟨front, last, rfl⟩ := (List.eq_nil_or_concat' element).resolve_left h
  obtain ⟨hlt, heq⟩ := eq_lastByte last
  exact ⟨front, _, _, hlt, by rw [← heq]⟩

/-! ## Lengths -/

/-- An element has room for magnitudes of one bit less than its own. -/
theorem two_mul_natAbs_value_lt (element : Bytes) :
    2 * (value element).natAbs < 256 ^ element.length := by
  by_cases hne : element = []
  · subst hne
    decide
  · obtain ⟨front, negative, digit, hdigit, rfl⟩ := exists_lastByte hne
    rw [natAbs_value_lastByte front hdigit, List.length_append, List.length_singleton]
    exact (Bytes.two_mul_toNatLE_concat_lt_iff front digit).mpr hdigit

/-- A number is written in so many bytes exactly if they have a bit more than its magnitude. -/
theorem length_encode_le_iff {k : ℕ} : (encode n).length ≤ k ↔ 2 * n.natAbs < 256 ^ k := by
  constructor
  · intro hle
    have hlt := two_mul_natAbs_value_lt (encode n)
    rw [value_encode] at hlt
    exact hlt.trans_le (Nat.pow_le_pow_right (by decide) hle)
  · intro hlt
    by_contra hlong
    rw [Nat.not_le] at hlong
    by_cases hn : n = 0
    · subst hn
      rw [encode_zero] at hlong
      exact absurd hlong (Nat.not_lt_zero k)
    · obtain ⟨front, last, hdigits, hlast⟩ := Bytes.exists_digitsLE (Int.natAbs_ne_zero.mpr hn)
      have hvalue := Bytes.toNatLE_digitsLE n.natAbs
      rw [hdigits] at hvalue
      rw [encode, hdigits, withSign_concat] at hlong
      split at hlong
      · next htop =>
        -- the magnitude fills all bits of its digits
        have hk : k ≤ front.length + 1 := by simpa [Nat.lt_succ_iff] using hlong
        have hpower : 256 ^ k ≤ 256 ^ (front.length + 1) := Nat.pow_le_pow_right (by decide) hk
        rw [← hvalue] at hlt
        exact UInt8.not_le.mpr ((Bytes.two_mul_toNatLE_concat_lt_iff front last).mp
          (hlt.trans_le hpower)) htop
      · have hk : k ≤ front.length := by simpa [Nat.lt_succ_iff] using hlong
        have hpower : 256 ^ k ≤ 256 ^ front.length := Nat.pow_le_pow_right (by decide) hk
        have hwide := Bytes.pow_le_toNatLE_concat front hlast
        omega

/-- No element that writes a number is shorter than the one that is written for it. -/
theorem length_encode_le (element : Bytes) : (encode (value element)).length ≤ element.length :=
  length_encode_le_iff.mpr (two_mul_natAbs_value_lt element)

/-! ## Minimal elements -/

theorem isMinimal_encode (n : ℤ) : IsMinimal (encode n) := by
  by_cases hn : n = 0
  · subst hn
    exact .inl encode_zero
  · obtain ⟨front, last, hdigits, hlast⟩ := Bytes.exists_digitsLE (Int.natAbs_ne_zero.mpr hn)
    rw [encode, hdigits, withSign_concat]
    split
    · next htop => exact .inr (.inr ⟨front, last, _, List.append_assoc .., htop⟩)
    · next htop =>
      refine .inr (.inl ⟨front, _, rfl, ?_⟩)
      rw [(lastByte_spec last (UInt8.not_le.mp htop) _).2.2]
      exact hlast

/-- The element that is written for the number of another one, from the digits of the magnitude. -/
theorem encode_value_lastByte (front : Bytes) {digit : UInt8} (h : digit < 0x80) (negative : Bool)
    (hne : Bytes.toNatLE (front ++ [digit]) ≠ 0) :
    encode (value (front ++ [lastByte negative digit])) =
      withSign negative (Bytes.digitsLE (Bytes.toNatLE (front ++ [digit]))) := by
  have hsign := value_lastByte_neg_iff front h negative hne
  rw [encode, natAbs_value_lastByte front h]
  simp only [hsign, Bool.decide_eq_true]

/-- An element is what is written for its number exactly if it is minimal. -/
theorem encode_value_iff : encode (value element) = element ↔ IsMinimal element := by
  have hdigit : ∀ front last, last &&& 0x7f ≠ 0 →
      encode (value (front ++ [last])) = front ++ [last] := by
    intro front last hlast
    obtain ⟨hlt, heq⟩ := eq_lastByte last
    rw [heq, encode_value_lastByte front hlt _ (Bytes.toNatLE_concat_ne_zero front hlast),
      Bytes.digitsLE_toNatLE front hlast, withSign_concat, if_neg (UInt8.not_le.mpr hlt)]
  constructor
  · intro h
    rw [← h]
    exact isMinimal_encode _
  · rintro (rfl | ⟨front, last, rfl, hlast⟩ | ⟨front, before, last, rfl, hbefore⟩)
    · exact encode_zero
    · exact hdigit front last hlast
    · rw [List.append_cons]
      by_cases hlast : last &&& 0x7f = 0
      · -- the last byte is there for the sign only
        have hne : before ≠ 0 := by
          rintro rfl
          exact absurd hbefore (by decide)
        have hmagnitude : Bytes.toNatLE (front ++ [before] ++ [0]) ≠ 0 := by
          rw [Bytes.toNatLE_concat_zero]
          exact Bytes.toNatLE_concat_ne_zero front hne
        rw [(eq_lastByte last).2, hlast, encode_value_lastByte _ (by decide) _ hmagnitude,
          Bytes.toNatLE_concat_zero, Bytes.digitsLE_toNatLE front hne, withSign_concat,
          if_pos hbefore]
      · exact hdigit _ last hlast

/-! ## Reading and writing -/

theorem decode_eq_ok_iff {n : ℤ} :
    decode limit element = .ok n ↔ element.length ≤ min limit widthLimit ∧ value element = n := by
  unfold decode
  split
  · next h => simp [h]
  · next h => simp [h]

/-- A number that is read is one of 64 bits. -/
theorem exists_int64 (h : element.length ≤ 8) : ∃ m : Int64, m.toInt = value element := by
  have hlt := (two_mul_natAbs_value_lt element).trans_le (Nat.pow_le_pow_right (by decide) h)
  exact ⟨_, Int64.toInt_ofInt_of_le (by omega) (by omega)⟩

/-- A number of 64 bits is written in eight bytes at most, unless it is the least of them. -/
theorem length_encode_toInt_le_iff (m : Int64) :
    (encode m.toInt).length ≤ 8 ↔ m ≠ Int64.minValue := by
  have hge := m.le_toInt
  have hlt := m.toInt_lt
  rw [length_encode_le_iff, ne_eq, ← Int64.toInt_inj, Int64.toInt_minValue]
  omega

theorem isTrue_negativeZero (k : ℕ) : isTrue (List.replicate k 0 ++ [0x80]) = false := by
  have hvalue : value (List.replicate k 0 ++ [lastByte true 0]) = 0 := by
    rw [← Int.natAbs_eq_zero, natAbs_value_lastByte _ (by decide), Bytes.toNatLE_concat_zero]
    induction k with
    | zero => rfl
    | succ k ih =>
      rw [List.replicate_succ, Bytes.toNatLE, ih]
      rfl
  rw [Bool.eq_false_iff, ne_eq, isTrue_iff, not_not]
  exact hvalue

/-- A number is read back from what is written for it, if that is not too long to be read, and no
shorter element is read as the number. Of the numbers of 64 bits only the least is written in more
than eight bytes. An element is refused exactly if it is too long. Else it is read as a number of 64
bits; it is what is written for that number exactly if it is minimal, and true exactly if the number
is not zero, which also has a negative form in every length. -/
theorem decode_encode_shortest (limit : ℕ) (element : Bytes) :
    (∀ n : ℤ, (decode limit (encode n) = .ok n ↔ (encode n).length ≤ min limit 8) ∧
      ∀ k shorter, decode k shorter = .ok n → (encode n).length ≤ shorter.length) ∧
    (∀ m : Int64, (encode m.toInt).length ≤ 8 ↔ m ≠ Int64.minValue) ∧
    (∀ e, decode limit element = .error e ↔
      min limit 8 < element.length ∧ e = .numberOverflow) ∧
    (∀ n, decode limit element = .ok n → (∃ m : Int64, m.toInt = n) ∧
      (encode n = element ↔ IsMinimal element) ∧ (isTrue element = true ↔ n ≠ 0)) ∧
    ∀ k, isTrue (List.replicate k 0 ++ [0x80]) = false := by
  refine ⟨fun n => ⟨?_, ?_⟩, length_encode_toInt_le_iff, fun e => decode_eq_error_iff, ?_,
    isTrue_negativeZero⟩
  · rw [decode_eq_ok_iff, value_encode]
    exact and_iff_left rfl
  · intro k shorter h
    obtain ⟨-, rfl⟩ := decode_eq_ok_iff.mp h
    exact length_encode_le shorter
  · intro n h
    obtain ⟨hlength, rfl⟩ := decode_eq_ok_iff.mp h
    have hmachine := exists_int64 (hlength.trans (Nat.min_le_right _ _))
    exact ⟨hmachine, encode_value_iff, isTrue_iff element⟩

/-- A third byte that the number 128 does not need. -/
theorem decode_padded :
    decode 4 [0x80, 0x00, 0x00] = .ok 128 ∧ (encode 128).length ≤ 3 ∧
      encode 128 ≠ [0x80, 0x00, 0x00] ∧ ¬ IsMinimal [0x80, 0x00, 0x00] ∧
      isTrue [0x80, 0x00, 0x00] = true := by
  have hread : decode 4 [0x80, 0x00, 0x00] = .ok 128 := rfl
  obtain ⟨hwrite, -, -, helement, -⟩ := decode_encode_shortest 4 [0x80, 0x00, 0x00]
  obtain ⟨-, hminimal, htrue⟩ := helement 128 hread
  have hne : encode 128 ≠ [0x80, 0x00, 0x00] := by
    intro heq
    have hlength : (encode 128).length ≤ 2 := length_encode_le_iff.mpr (by decide)
    rw [heq] at hlength
    exact absurd hlength (by decide)
  exact ⟨hread, (hwrite 128).2 4 _ hread, hne, fun h => hne (hminimal.mpr h),
    htrue.mpr (by decide)⟩

end CoinSpend.ScriptNumber
