/-!
# Byte strings

Byte strings are lists of bytes; a string of known length carries the length in its type. Numbers
are written in base 256, in either byte order.

* `Bytes.ofNatLE_toNatLE`: reading a byte string and writing the number back in as many bytes gives
  the string.
-/

namespace CoinSpend

/-- A string of bytes, first byte first. -/
abbrev Bytes := List UInt8

/-- A string of exactly `n` bytes. -/
abbrev FixedBytes (n : Nat) := { bytes : Bytes // bytes.length = n }

namespace Bytes

/-- The number whose base-256 digits are the bytes, least significant first. Model of
`from_bytes_le`. -/
def toNatLE : Bytes → Nat
  | [] => 0
  | b :: bs => b.toNat + 256 * toNatLE bs

/-- The number whose base-256 digits are the bytes, most significant first. Model of
`from_bytes_be`. -/
def toNatBE (bs : Bytes) : Nat := toNatLE bs.reverse

/-- The `n` low base-256 digits of a number, least significant first. -/
def ofNatLE : Nat → Nat → Bytes
  | 0, _ => []
  | n + 1, value => UInt8.ofNat value :: ofNatLE n (value / 256)

/-- The `n` low base-256 digits of a number, most significant first. -/
def ofNatBE (n value : Nat) : Bytes := (ofNatLE n value).reverse

/-- The number of base-256 digits of a number. Zero has none. -/
def width (value : Nat) : Nat :=
  if value = 0 then 0 else width (value / 256) + 1

/-- The base-256 digits of a number, least significant first, without leading zeros. -/
def digitsLE (value : Nat) : Bytes := ofNatLE (width value) value

/-- The base-256 digits of a number, most significant first, without leading zeros. -/
def digitsBE (value : Nat) : Bytes := ofNatBE (width value) value

@[simp] theorem length_ofNatLE (n value : Nat) : (ofNatLE n value).length = n := by
  induction n generalizing value with
  | zero => rfl
  | succ n ih => simp [ofNatLE, ih]

@[simp] theorem length_ofNatBE (n value : Nat) : (ofNatBE n value).length = n := by
  simp [ofNatBE]

theorem ofNatLE_toNatLE (bs : Bytes) : ofNatLE bs.length (toNatLE bs) = bs := by
  induction bs with
  | nil => rfl
  | cons b bs ih =>
    have hb : b.toNat < 256 := b.toNat_lt
    have hdiv : (b.toNat + 256 * toNatLE bs) / 256 = toNatLE bs := by omega
    have hhead : UInt8.ofNat (b.toNat + 256 * toNatLE bs) = b := by
      apply UInt8.toNat_inj.mp
      simp only [UInt8.toNat_ofNat']
      omega
    simp only [List.length_cons, toNatLE, ofNatLE, hdiv, hhead, ih]

theorem ofNatBE_toNatBE (bs : Bytes) : ofNatBE bs.length (toNatBE bs) = bs := by
  have h := ofNatLE_toNatLE bs.reverse
  rw [List.length_reverse] at h
  simp [ofNatBE, toNatBE, h]

end Bytes

namespace FixedBytes

/-- The `n` low base-256 digits of a number, most significant first. -/
def ofNatBE (n value : Nat) : FixedBytes n := ⟨Bytes.ofNatBE n value, by simp⟩

/-- The same byte `n` times. -/
def replicate (n : Nat) (byte : UInt8) : FixedBytes n :=
  ⟨List.replicate n byte, List.length_replicate⟩

/-- The bytes in opposite order. -/
def reverse {n : Nat} (bytes : FixedBytes n) : FixedBytes n :=
  ⟨bytes.val.reverse, by simp [bytes.property]⟩

@[simp] theorem reverse_reverse {n : Nat} (bytes : FixedBytes n) :
    bytes.reverse.reverse = bytes := by
  simp [reverse]

end FixedBytes

end CoinSpend
