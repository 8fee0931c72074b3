import CoinSpend.Bytes.Lemmas
import CoinSpend.Proofs.Outcome
import CoinSpend.Text.Base58
import Mathlib

/-!
# Base 58 as a change of base

A byte string is a number of leading zeros and the number that the other bytes write, and so is a
list of base-58 digits. Writing and reading keep both parts and change the base, so each byte string
has one text, and each text over the alphabet has one byte string.

Results:
* `digits_eq`: the digits of a number are its digits in base 58.
* `Regroups`: bytes and digits with the same two parts; each side has exactly one partner.
* `encode_eq_iff`: the text of a byte string.
* `decode_eq_ok_iff`: a text is read as the bytes that are written as it.
* `exists_decode_iff`, `decode_eq_error_iff`: a text is refused for its first character that is not
  in the alphabet, and for nothing else.
-/

namespace CoinSpend

/-! ## Leading zeros -/

section Leading

variable {α : Type} [DecidableEq α] {zero : α}

/-- A list is a row of zeros and a rest that does not start with one. -/
theorem exists_leading (zero : α) (as : List α) :
    ∃ count rest, as = List.replicate count zero ++ rest ∧ rest.head? ≠ some zero := by
  induction as with
  | nil => exact ⟨0, [], rfl, by simp⟩
  | cons a as ih =>
    by_cases h : a = zero
    · obtain ⟨count, rest, rfl, hrest⟩ := ih
      exact ⟨count + 1, rest, by rw [h, List.replicate_succ, List.cons_append], hrest⟩
    · exact ⟨0, a :: as, rfl, by simpa using h⟩

theorem takeWhile_leading {rest : List α} (h : rest.head? ≠ some zero) (count : ℕ) :
    (List.replicate count zero ++ rest).takeWhile (· == zero) = List.replicate count zero := by
  have hrest : rest.takeWhile (· == zero) = [] := by
    cases rest with
    | nil => rfl
    | cons a rest => simpa using h
  rw [List.takeWhile_append_of_pos (by simp), hrest, List.append_nil]

theorem dropWhile_leading {rest : List α} (h : rest.head? ≠ some zero) (count : ℕ) :
    (List.replicate count zero ++ rest).dropWhile (· == zero) = rest := by
  rw [List.dropWhile_append_of_pos (by simp)]
  cases rest with
  | nil => rfl
  | cons a rest =>
    rw [List.dropWhile_cons, if_neg]
    simpa using h

end Leading

namespace Base58

/-! ## The digits of a number -/

theorem digits_eq (value : ℕ) (tail : List ℕ) :
    digits value tail = (Nat.digits 58 value).reverse ++ tail := by
  induction value using Nat.strongRecOn generalizing tail with
  | ind value ih =>
    unfold digits
    split
    · next h => simp [h]
    · next h =>
      have hpos : 0 < value := Nat.pos_of_ne_zero h
      rw [ih (value / 58) (by omega), Nat.digits_def' (by decide) hpos, List.reverse_cons,
        List.append_assoc, List.singleton_append]

theorem lt_of_mem_digits {value d : ℕ} (h : d ∈ digits value []) : d < 58 := by
  rw [digits_eq, List.append_nil, List.mem_reverse] at h
  exact Nat.digits_lt_base (by decide) h

theorem head?_digits (value : ℕ) : (digits value []).head? ≠ some 0 := by
  rw [digits_eq, List.append_nil, List.head?_reverse]
  by_cases h : value = 0
  · simp [h]
  · have hlast := Nat.getLast_digit_ne_zero 58 h
    rwa [ne_eq, List.getLast_eq_iff_getLast?_eq_some] at hlast

/-- The number that digits write, most significant first. -/
def number (ds : List ℕ) : ℕ := ds.foldl (fun value d => 58 * value + d) 0

theorem number_eq (ds : List ℕ) : number ds = Nat.ofDigits 58 ds.reverse := by
  unfold number
  rw [← List.foldr_reverse, Nat.ofDigits_eq_foldr]
  simp only [Nat.cast_id, Nat.add_comm]

theorem number_replicate_append (count : ℕ) (ds : List ℕ) :
    number (List.replicate count 0 ++ ds) = number ds := by
  rw [number_eq, number_eq, List.reverse_append, List.reverse_replicate,
    Nat.ofDigits_append_replicate_zero]

theorem number_digits (value : ℕ) : number (digits value []) = value := by
  rw [number_eq, digits_eq, List.append_nil, List.reverse_reverse, Nat.ofDigits_digits]

/-- Digits that do not start with a zero are those of the number that they write. -/
theorem digits_number {ds : List ℕ} (hlt : ∀ d ∈ ds, d < 58) (h : ds.head? ≠ some 0) :
    digits (number ds) [] = ds := by
  have hlast : ∀ hne : ds.reverse ≠ [], ds.reverse.getLast hne ≠ 0 := by
    intro hne
    rwa [ne_eq, List.getLast_eq_iff_getLast?_eq_some, List.getLast?_reverse]
  rw [digits_eq, number_eq, List.append_nil,
    Nat.digits_ofDigits 58 (by decide) ds.reverse (fun d hd => hlt d (List.mem_reverse.mp hd))
      hlast, List.reverse_reverse]

/-! ## Changing the base -/

theorem digit_zero : digit 0 = '1' := rfl

/-- Bytes and base-58 digits that write the same number behind equally many zeros. -/
inductive Regroups : Bytes → List ℕ → Prop
  | intro (count value : ℕ) : Regroups (List.replicate count 0 ++ Bytes.digitsBE value)
      (List.replicate count 0 ++ digits value [])

theorem Regroups.exists_digits (bytes : Bytes) : ∃ ds, Regroups bytes ds := by
  obtain ⟨count, rest, rfl, hrest⟩ := exists_leading 0 bytes
  rw [← Bytes.digitsBE_toNatBE hrest]
  exact ⟨_, .intro count _⟩

theorem Regroups.exists_bytes {ds : List ℕ} (hlt : ∀ d ∈ ds, d < 58) :
    ∃ bytes, Regroups bytes ds := by
  obtain ⟨count, rest, rfl, hrest⟩ := exists_leading 0 ds
  have hrestlt : ∀ d ∈ rest, d < 58 := fun d hd => hlt d (List.mem_append_right _ hd)
  rw [← digits_number hrestlt hrest]
  exact ⟨_, .intro count _⟩

theorem Regroups.lt {bytes : Bytes} {ds : List ℕ} (h : Regroups bytes ds) : ∀ d ∈ ds, d < 58 := by
  cases h with
  | intro count value =>
    intro d hd
    rcases List.mem_append.mp hd with hzero | hdigit
    · rw [List.eq_of_mem_replicate hzero]
      decide
    · exact lt_of_mem_digits hdigit

/-- Bytes are written as the digits that go with them. -/
theorem Regroups.encode_eq {bytes : Bytes} {ds : List ℕ} (h : Regroups bytes ds) :
    encode bytes = String.ofList (ds.map digit) := by
  cases h with
  | intro count value =>
    unfold encode
    simp only [takeWhile_leading (Bytes.head?_digitsBE value), Bytes.toNatBE_digitsBE,
      dropWhile_leading (Bytes.head?_digitsBE value), List.map_append, List.map_replicate,
      digit_zero]

/-! ## The alphabet -/

theorem mem_alphabet_iff {c : Char} : c ∈ alphabet ↔ ∃ d, digitValue? c = some d := by
  unfold digitValue?
  rw [← List.isSome_idxOf?, Option.isSome_iff_exists]

theorem digitValue?_eq_some {c : Char} {d : ℕ} (h : digitValue? c = some d) :
    d < 58 ∧ digit d = c := by
  have hlength : alphabet.length = 58 := by decide
  obtain ⟨hd, hc, -⟩ := List.idxOf?_eq_some_iff.mp h
  refine ⟨hlength ▸ hd, ?_⟩
  unfold digit
  rw [List.getD_eq_getElem _ _ hd, hc]

theorem toNat_le_of_mem_alphabet {c : Char} (h : c ∈ alphabet) : c.toNat ≤ 127 := by
  have hall : alphabet.all (fun c => c.toNat ≤ 127) = true := by decide
  exact of_decide_eq_true (List.all_eq_true.mp hall c h)

theorem digitValues_cons {c : Char} {d : ℕ} (h : digitValue? c = some d) (place : ℕ)
    (rest : List Char) :
    digitValues place (c :: rest) = (digitValues (place + 1) rest).map (d :: ·) := by
  have hascii := toNat_le_of_mem_alphabet (mem_alphabet_iff.mpr ⟨d, h⟩)
  rw [digitValues, if_neg (Nat.not_lt.mpr hascii), h]

/-- What is wrong with a character that is not in the alphabet. -/
def fault (c : Char) (place : ℕ) : DecodeError :=
  if c.toNat > 127 then .notAscii place else .badCharacter c place

theorem digitValues_of_notMem {c : Char} (h : c ∉ alphabet) (place : ℕ) (rest : List Char) :
    digitValues place (c :: rest) = .error (fault c place) := by
  have hnone : digitValue? c = none := by
    rw [Option.eq_none_iff_forall_ne_some]
    exact fun d hd => h (mem_alphabet_iff.mpr ⟨d, hd⟩)
  unfold digitValues fault
  split
  · rfl
  · rw [hnone]

/-- The digits of a text are read one by one. -/
theorem digitValues_eq_ok_iff {place : ℕ} {text : List Char} {ds : List ℕ} :
    digitValues place text = .ok ds ↔ (∀ d ∈ ds, d < 58) ∧ text = ds.map digit := by
  induction text generalizing place ds with
  | nil =>
    rw [digitValues, Except.ok.injEq]
    constructor
    · rintro rfl
      simp
    · rintro ⟨-, htext⟩
      exact (List.map_eq_nil_iff.mp htext.symm).symm
  | cons c text ih =>
    by_cases hc : c ∈ alphabet
    · obtain ⟨d, hd⟩ := mem_alphabet_iff.mp hc
      obtain ⟨hlt, hdigit⟩ := digitValue?_eq_some hd
      rw [digitValues_cons hd, map_eq_ok_iff]
      constructor
      · rintro ⟨ds, hds, rfl⟩
        obtain ⟨hall, rfl⟩ := ih.mp hds
        exact ⟨List.forall_mem_cons.mpr ⟨hlt, hall⟩, by rw [List.map_cons, hdigit]⟩
      · rintro ⟨hall, htext⟩
        obtain ⟨e, es, rfl, hce, hes⟩ := List.map_eq_cons_iff.mp htext.symm
        obtain ⟨he, hall⟩ := List.forall_mem_cons.mp hall
        rw [← hce, digitValue?_digit he, Option.some.injEq] at hd
        exact ⟨es, ih.mpr ⟨hall, hes.symm⟩, by rw [hd]⟩
    · rw [digitValues_of_notMem hc]
      constructor
      · intro h
        cases h
      · rintro ⟨hall, htext⟩
        obtain ⟨e, es, rfl, hce, -⟩ := List.map_eq_cons_iff.mp htext.symm
        obtain ⟨he, -⟩ := List.forall_mem_cons.mp hall
        exact absurd (mem_alphabet_iff.mpr ⟨e, hce ▸ digitValue?_digit he⟩) hc

theorem digitValues_eq_error_iff {place : ℕ} {text : List Char} {e : DecodeError} :
    digitValues place text = .error e ↔ ∃ front c rest, text = front ++ c :: rest ∧
      (∀ d ∈ front, d ∈ alphabet) ∧ c ∉ alphabet ∧ e = fault c (place + front.length) := by
  induction text generalizing place with
  | nil => simp [digitValues]
  | cons c text ih =>
    by_cases hc : c ∈ alphabet
    · obtain ⟨d, hd⟩ := mem_alphabet_iff.mp hc
      rw [digitValues_cons hd, map_eq_error_iff, ih]
      constructor
      · rintro ⟨front, b, rest, rfl, hfront, hb, rfl⟩
        refine ⟨c :: front, b, rest, rfl, List.forall_mem_cons.mpr ⟨hc, hfront⟩, hb, ?_⟩
        rw [List.length_cons, Nat.add_right_comm, Nat.add_assoc]
      · rintro ⟨front, b, rest, htext, hfront, hb, rfl⟩
        rcases List.cons_eq_append_iff.mp htext with ⟨rfl, hcons⟩ | ⟨front, rfl, rfl⟩
        · cases hcons
          exact absurd hc hb
        · refine ⟨front, b, rest, rfl, (List.forall_mem_cons.mp hfront).2, hb, ?_⟩
          rw [List.length_cons, Nat.add_right_comm, Nat.add_assoc]
    · rw [digitValues_of_notMem hc, Except.error.injEq]
      constructor
      · rintro rfl
        exact ⟨[], c, text, rfl, by simp, hc, rfl⟩
      · rintro ⟨front, b, rest, htext, hfront, -, rfl⟩
        rcases List.cons_eq_append_iff.mp htext with ⟨rfl, hcons⟩ | ⟨front, rfl, -⟩
        · cases hcons
          rfl
        · exact absurd (hfront c List.mem_cons_self) hc

/-! ## Texts -/

/-- A text has a leading `1` for each leading zero, and then the digits of the number that the other
bytes write. -/
theorem encode_eq_iff {text : String} {bytes : Bytes} : encode bytes = text ↔
    ∃ count value, bytes = List.replicate count 0 ++ Bytes.digitsBE value ∧
      text = String.ofList
        (List.replicate count '1' ++ (Nat.digits 58 value).reverse.map digit) := by
  have hform : ∀ count value,
      encode (List.replicate count 0 ++ Bytes.digitsBE value) = String.ofList
        (List.replicate count '1' ++ (Nat.digits 58 value).reverse.map digit) := by
    intro count value
    rw [(Regroups.intro count value).encode_eq, digits_eq, List.append_nil, List.map_append,
      List.map_replicate, digit_zero]
  constructor
  · rintro rfl
    obtain ⟨ds, hds⟩ := Regroups.exists_digits bytes
    cases hds with
    | intro count value => exact ⟨count, value, rfl, hform count value⟩
  · rintro ⟨count, value, rfl, rfl⟩
    exact hform count value

/-- A text of digits is read as the bytes that go with them. -/
theorem Regroups.decode_eq {bytes : Bytes} {ds : List ℕ} (h : Regroups bytes ds) :
    decode (String.ofList (ds.map digit)) = .ok bytes := by
  have hdigits : digitValues 0 (ds.map digit) = .ok ds := digitValues_eq_ok_iff.mpr ⟨h.lt, rfl⟩
  unfold decode
  rw [String.toList_ofList, hdigits]
  cases h with
  | intro count value =>
    have hnumber := number_replicate_append count (digits value [])
    rw [number_digits] at hnumber
    unfold number at hnumber
    simp only [Except.map, takeWhile_leading (head?_digits value), List.length_replicate, hnumber]

theorem exists_decode_of_digits {text : String} {ds : List ℕ}
    (h : digitValues 0 text.toList = .ok ds) : ∃ bytes, decode text = .ok bytes ∧
      encode bytes = text := by
  obtain ⟨hlt, htext⟩ := digitValues_eq_ok_iff.mp h
  obtain ⟨bytes, hbytes⟩ := Regroups.exists_bytes hlt
  have hback : String.ofList (ds.map digit) = text := by rw [← htext, String.ofList_toList]
  exact ⟨bytes, hback ▸ hbytes.decode_eq, hback ▸ hbytes.encode_eq⟩

/-- A text is read as the bytes that are written as it. -/
theorem decode_eq_ok_iff {text : String} {bytes : Bytes} :
    decode text = .ok bytes ↔ encode bytes = text := by
  constructor
  · intro h
    obtain ⟨ds, hds, -⟩ := map_eq_ok_iff.mp h
    obtain ⟨bytes', hdecode, hencode⟩ := exists_decode_of_digits hds
    cases h.symm.trans hdecode
    exact hencode
  · rintro rfl
    obtain ⟨ds, hds⟩ := Regroups.exists_digits bytes
    rw [hds.encode_eq]
    exact hds.decode_eq

/-- A text is refused for its first character that is not in the alphabet. -/
theorem decode_eq_error_iff {text : String} {e : DecodeError} :
    decode text = .error e ↔ ∃ front c rest, text.toList = front ++ c :: rest ∧
      (∀ d ∈ front, d ∈ alphabet) ∧ c ∉ alphabet ∧ e = fault c front.length := by
  unfold decode
  rw [map_eq_error_iff, digitValues_eq_error_iff]
  simp only [Nat.zero_add]

theorem exists_decode_iff {text : String} :
    (∃ bytes, decode text = .ok bytes) ↔ ∀ c ∈ text.toList, c ∈ alphabet := by
  constructor
  · rintro ⟨bytes, h⟩ c hc
    obtain ⟨ds, hds, -⟩ := map_eq_ok_iff.mp h
    obtain ⟨hlt, htext⟩ := digitValues_eq_ok_iff.mp hds
    rw [htext] at hc
    obtain ⟨d, hd, rfl⟩ := List.mem_map.mp hc
    exact mem_alphabet_iff.mpr ⟨d, digitValue?_digit (hlt d hd)⟩
  · intro hall
    cases h : decode text with
    | ok bytes => exact ⟨bytes, rfl⟩
    | error e =>
      obtain ⟨front, c, rest, htext, -, hc, -⟩ := decode_eq_error_iff.mp h
      exact absurd (hall c (htext ▸ List.mem_append_cons_self)) hc

end Base58

end CoinSpend
