import CoinSpend.Bytes

/-!
# Hexadecimal text

Bytes are written as two lowercase digits each. Reading takes digits of either case and reports the
place of the first fault.

* `decode_encode`: reading what was written gives the bytes back.
* `encode_inj`: different bytes are written differently.
-/

namespace CoinSpend.Hex

/-- Why a text is no hexadecimal form of bytes. -/
inductive DecodeError where
  /-- The text has an odd number of bytes; `place` is the offset of the last one. -/
  | oddLength (place : Nat)
  /-- The byte at `place` is no hexadecimal digit. -/
  | badSymbol (place : Nat)
deriving DecidableEq, Repr

/-- The wording of a fault. -/
def DecodeError.message : DecodeError → String
  | oddLength place => s!"invalid length at {place}"
  | badSymbol place => s!"invalid symbol at {place}"

/-- The lowercase digit of a number below 16. -/
def digit (n : Nat) : Char :=
  if n < 10 then Char.ofNat (48 + n) else Char.ofNat (87 + n)

/-- The value of a hexadecimal digit of either case. -/
def digitValue? (c : Char) : Option Nat :=
  if '0' ≤ c ∧ c ≤ '9' then some (c.toNat - 48)
  else if 'a' ≤ c ∧ c ≤ 'f' then some (c.toNat - 87)
  else if 'A' ≤ c ∧ c ≤ 'F' then some (c.toNat - 55)
  else none

/-- The two digits of a byte. -/
def byteDigits (b : UInt8) : List Char := [digit (b.toNat / 16), digit (b.toNat % 16)]

/-- Two lowercase digits for each byte. -/
def encode (bytes : Bytes) : String := String.ofList (bytes.flatMap byteDigits)

/-- A byte with its base: two digits after `0x`. -/
def ofByte (b : UInt8) : String := "0x" ++ encode [b]

/-- A number in lowercase digits without leading zeros; zero is one digit. -/
def ofNat (n : Nat) : String := String.ofList (Nat.toDigits 16 n)

/-- Reads digits in pairs. `place` is the offset of the first of them in the whole text. -/
def decodeDigits (place : Nat) : List Char → Except DecodeError Bytes
  | high :: low :: rest =>
    match digitValue? high, digitValue? low with
    | none, _ => .error (.badSymbol place)
    | some _, none => .error (.badSymbol (place + 1))
    | some h, some l => (decodeDigits (place + 2) rest).map (UInt8.ofNat (16 * h + l) :: ·)
  | [_] => .error (.badSymbol place)
  | [] => .ok []

/-- The number of bytes in the UTF-8 form of a text. -/
def utf8Length : List Char → Nat
  | [] => 0
  | c :: text => c.utf8Size + utf8Length text

/-- Reads bytes from digits of either case. The length is checked before any digit, and all offsets
count bytes of the text's UTF-8 form. -/
def decode (text : List Char) : Except DecodeError Bytes :=
  let size := utf8Length text
  if size % 2 = 1 then .error (.oddLength (size - 1)) else decodeDigits 0 text

theorem digitValue?_digit {n : Nat} (h : n < 16) : digitValue? (digit n) = some n := by
  have : ∀ m : Fin 16, digitValue? (digit m.val) = some m.val := by decide
  exact this ⟨n, h⟩

theorem utf8Size_digit {n : Nat} (h : n < 16) : (digit n).utf8Size = 1 := by
  have : ∀ m : Fin 16, (digit m.val).utf8Size = 1 := by decide
  exact this ⟨n, h⟩

theorem decodeDigits_byteDigits (place : Nat) (bytes : Bytes) :
    decodeDigits place (bytes.flatMap byteDigits) = .ok bytes := by
  induction bytes generalizing place with
  | nil => rfl
  | cons b bs ih =>
    have hb : b.toNat < 256 := b.toNat_lt
    have hjoin : UInt8.ofNat (16 * (b.toNat / 16) + b.toNat % 16) = b := by
      rw [Nat.div_add_mod]
      exact UInt8.ofNat_toNat
    simp [byteDigits, decodeDigits, digitValue?_digit (show b.toNat / 16 < 16 by omega),
      digitValue?_digit (show b.toNat % 16 < 16 by omega), ih, hjoin, Except.map]

theorem utf8Length_byteDigits_append (b : UInt8) (text : List Char) :
    utf8Length (byteDigits b ++ text) = 2 + utf8Length text := by
  have hb : b.toNat < 256 := b.toNat_lt
  simp only [byteDigits, List.cons_append, List.nil_append, utf8Length,
    utf8Size_digit (show b.toNat / 16 < 16 by omega),
    utf8Size_digit (show b.toNat % 16 < 16 by omega)]
  omega

theorem utf8Length_byteDigits (bytes : Bytes) :
    utf8Length (bytes.flatMap byteDigits) = 2 * bytes.length := by
  induction bytes with
  | nil => rfl
  | cons b bs ih =>
    rw [List.flatMap_cons, utf8Length_byteDigits_append, ih, List.length_cons]
    omega

theorem decode_encode (bytes : Bytes) : decode (encode bytes).toList = .ok bytes := by
  simp [decode, encode, utf8Length_byteDigits, decodeDigits_byteDigits]

/-- Only the sixteen lowercase digits are written. -/
theorem exists_digit_of_mem_encode {bytes : Bytes} {c : Char} (h : c ∈ (encode bytes).toList) :
    ∃ n, n < 16 ∧ digit n = c := by
  simp only [encode, String.toList_ofList, List.mem_flatMap, byteDigits, List.mem_cons,
    List.not_mem_nil, or_false] at h
  obtain ⟨b, -, rfl | rfl⟩ := h
  · have hb : b.toNat < 256 := b.toNat_lt
    exact ⟨b.toNat / 16, by omega, rfl⟩
  · exact ⟨b.toNat % 16, Nat.mod_lt _ (by decide), rfl⟩

theorem encode_inj {left right : Bytes} : encode left = encode right ↔ left = right := by
  constructor
  · intro h
    have hdecode := decode_encode left
    rw [h, decode_encode, Except.ok.injEq] at hdecode
    exact hdecode.symm
  · exact congrArg encode

end CoinSpend.Hex
