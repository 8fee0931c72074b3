import CoinSpend.Proofs.Text.Base58
import CoinSpend.Wallet.Address
import Mathlib

/-!
# Checked base 58

A checked text is the base-58 text of a payload and of four bytes that depend on the payload, so it
has one payload and the payload has one text. Every other text has one of three faults: it is not in
base 58, it has no room for a checksum, or its last four bytes are not the checksum of the others.

Results:
* `decode_eq_ok_iff`: a text is read as the payload that is written as it.
* `Fault`, `decode_eq_error_iff`: what is wrong with the other texts, and the errors that say so.
* `codecs_exact`: both codecs are one to one, and how they refuse the other texts.
-/

namespace CoinSpend.Base58Check

variable {text : String} {bytes payload actual : Bytes}

theorem length_checksum (payload : Bytes) : (checksum payload).length = 4 :=
  List.length_take_of_le (by rw [(Hash.hash256 payload).property]; decide)

/-- Bytes with room for a checksum end in four bytes. -/
theorem exists_eq_append (h : 4 ≤ bytes.length) :
    ∃ payload actual, bytes = payload ++ actual ∧ actual.length = 4 := by
  refine ⟨bytes.take (bytes.length - 4), bytes.drop (bytes.length - 4),
    (List.take_append_drop _ _).symm, ?_⟩
  rw [List.length_drop]
  omega

/-! ## What is made of the bytes of a text -/

theorem decode_of_base58_error {cause : Base58.DecodeError}
    (h : Base58.decode text = .error cause) : decode text = .error (.badBase58 cause) := by
  unfold decode
  rw [h]
  rfl

theorem decode_of_short (h : Base58.decode text = .ok bytes) (hshort : bytes.length < 4) :
    decode text = .error (.checkedTextTooShort bytes.length) := by
  unfold decode
  rw [h]
  exact if_pos hshort

theorem decode_of_append (h : Base58.decode text = .ok (payload ++ actual))
    (hlength : actual.length = 4) : decode text =
      if checksum payload = actual then .ok payload
      else .error (.checksumMismatch (checksum payload) actual) := by
  have hroom : ¬(payload ++ actual).length < checksumLength := by
    rw [List.length_append, hlength, checksumLength]
    omega
  have hfront : (payload ++ actual).length - checksumLength = payload.length := by
    rw [List.length_append, hlength, checksumLength, Nat.add_sub_cancel]
  unfold decode
  rw [h]
  change (if _ then _ else _) = _
  rw [if_neg hroom]
  simp only [hfront, List.take_left, List.drop_left]

/-! ## One payload and one text -/

theorem decode_eq_ok_iff : decode text = .ok payload ↔ encode payload = text := by
  unfold encode
  rw [← Base58.decode_eq_ok_iff]
  constructor
  · intro h
    cases hbytes : Base58.decode text with
    | error cause =>
      rw [decode_of_base58_error hbytes] at h
      cases h
    | ok bytes =>
      rcases Nat.lt_or_ge bytes.length 4 with hshort | hroom
      · rw [decode_of_short hbytes hshort] at h
        cases h
      · obtain ⟨front, actual, rfl, hlength⟩ := exists_eq_append hroom
        rw [decode_of_append hbytes hlength] at h
        split at h
        · next hsum =>
          cases h
          rw [hsum]
        · cases h
  · intro h
    rw [decode_of_append h (length_checksum payload), if_pos rfl]

/-- If payloads are read as what is written as them, then so are their texts. -/
theorem decode_bind_eq_ok_iff {α : Type} {read : Bytes → Except Error α} {write : α → Bytes}
    (h : ∀ {bytes a}, read bytes = .ok a ↔ write a = bytes) {a : α} :
    decode text >>= read = .ok a ↔ encode (write a) = text := by
  rw [← decode_eq_ok_iff, bind_eq_ok_iff]
  simp only [h, exists_eq_right']

/-! ## Faults -/

/-- What is wrong with a text, and the error that says so. -/
inductive Fault (text : String) : Error → Prop
  /-- The text is not in base 58. -/
  | notBase58 {cause : Base58.DecodeError} (h : Base58.decode text = .error cause) :
    Fault text (.badBase58 cause)
  /-- There is no room for a checksum. -/
  | short {bytes : Bytes} (h : Base58.decode text = .ok bytes) (hshort : bytes.length < 4) :
    Fault text (.checkedTextTooShort bytes.length)
  /-- The last four bytes are not the checksum of those before them. -/
  | mismatch {payload actual : Bytes} (h : Base58.decode text = .ok (payload ++ actual))
    (hlength : actual.length = 4) (hsum : checksum payload ≠ actual) :
    Fault text (.checksumMismatch (checksum payload) actual)

theorem Fault.decode_eq {e : Error} (h : Fault text e) : decode text = .error e := by
  cases h with
  | notBase58 h => exact decode_of_base58_error h
  | short h hshort => exact decode_of_short h hshort
  | mismatch h hlength hsum => rw [decode_of_append h hlength, if_neg hsum]

theorem exists_decode_or_fault (text : String) :
    (∃ payload, decode text = .ok payload) ∨ ∃ e, Fault text e := by
  cases hbytes : Base58.decode text with
  | error cause => exact .inr ⟨_, .notBase58 hbytes⟩
  | ok bytes =>
    rcases Nat.lt_or_ge bytes.length 4 with hshort | hroom
    · exact .inr ⟨_, .short hbytes hshort⟩
    · obtain ⟨payload, actual, rfl, hlength⟩ := exists_eq_append hroom
      by_cases hsum : checksum payload = actual
      · refine .inl ⟨payload, ?_⟩
        rw [decode_of_append hbytes hlength, if_pos hsum]
      · exact .inr ⟨_, .mismatch hbytes hlength hsum⟩

theorem decode_eq_error_iff {e : Error} : decode text = .error e ↔ Fault text e :=
  eq_error_iff_of_faults Fault.decode_eq (exists_decode_or_fault text)

/-- The errors about the form of a text. -/
theorem exists_format_error_iff : (∃ e, decode text = .error e ∧ e.kind = .format) ↔
    (∃ c ∈ text.toList, c ∉ Base58.alphabet) ∨
      ∃ bytes, Base58.decode text = .ok bytes ∧ bytes.length < 4 := by
  constructor
  · rintro ⟨e, he, hkind⟩
    cases decode_eq_error_iff.mp he with
    | notBase58 h =>
      obtain ⟨front, c, rest, htext, -, hc, -⟩ := Base58.decode_eq_error_iff.mp h
      exact .inl ⟨c, htext ▸ List.mem_append_cons_self, hc⟩
    | short h hshort => exact .inr ⟨_, h, hshort⟩
    | mismatch h hlength hsum => cases hkind
  · rintro (⟨c, hc, hother⟩ | ⟨bytes, hbytes, hshort⟩)
    · cases hbytes : Base58.decode text with
      | error cause => exact ⟨_, decode_of_base58_error hbytes, rfl⟩
      | ok bytes => exact absurd (Base58.exists_decode_iff.mp ⟨bytes, hbytes⟩ c hc) hother
    · exact ⟨_, decode_of_short hbytes hshort, rfl⟩

theorem decode_eq_mismatch_iff {expected : Bytes} :
    decode text = .error (.checksumMismatch expected actual) ↔
      ∃ payload, Base58.decode text = .ok (payload ++ actual) ∧ actual.length = 4 ∧
        (Hash.hash256 payload).val.take 4 = expected ∧ expected ≠ actual := by
  rw [decode_eq_error_iff]
  constructor
  · intro h
    cases h with
    | mismatch h hlength hsum => exact ⟨_, h, hlength, rfl, hsum⟩
  · rintro ⟨payload, h, hlength, rfl, hsum⟩
    exact .mismatch h hlength hsum

/-- Bytes and texts over the alphabet are each other's only forms in base 58, with a leading `1` for
each leading zero, and so are payloads and the texts with a right checksum. A text that is not in
base 58, or has no four bytes, is malformed; one whose last four bytes are not the start of the hash
of the others has a wrong checksum, and the error shows both; nothing else is refused. -/
theorem codecs_exact (text : String) :
    (∀ bytes, Base58.encode bytes = text ↔
      ∃ count value, bytes = List.replicate count 0 ++ Bytes.digitsBE value ∧
        text = String.ofList
          (List.replicate count '1' ++ (Nat.digits 58 value).reverse.map Base58.digit)) ∧
    (∀ bytes, Base58.decode text = .ok bytes ↔ Base58.encode bytes = text) ∧
    ((∃ bytes, Base58.decode text = .ok bytes) ↔ ∀ c ∈ text.toList, c ∈ Base58.alphabet) ∧
    (∀ payload, decode text = .ok payload ↔ encode payload = text) ∧
    ((∃ e, decode text = .error e ∧ e.kind = .format) ↔
      (∃ c ∈ text.toList, c ∉ Base58.alphabet) ∨
        ∃ bytes, Base58.decode text = .ok bytes ∧ bytes.length < 4) ∧
    (∀ expected actual, decode text = .error (.checksumMismatch expected actual) ↔
      ∃ payload, Base58.decode text = .ok (payload ++ actual) ∧ actual.length = 4 ∧
        (Hash.hash256 payload).val.take 4 = expected ∧ expected ≠ actual) ∧
    ∀ e, decode text = .error e →
      e.kind = .format ∨ ∃ expected actual, e = .checksumMismatch expected actual := by
  refine ⟨fun bytes => Base58.encode_eq_iff, fun bytes => Base58.decode_eq_ok_iff,
    Base58.exists_decode_iff, fun payload => decode_eq_ok_iff, exists_format_error_iff,
    fun expected actual => decode_eq_mismatch_iff, fun e he => ?_⟩
  cases decode_eq_error_iff.mp he with
  | notBase58 h => exact .inl rfl
  | short h hshort => exact .inl rfl
  | mismatch h hlength hsum => exact .inr ⟨_, _, rfl⟩

end CoinSpend.Base58Check
