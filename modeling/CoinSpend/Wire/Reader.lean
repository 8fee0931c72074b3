import CoinSpend.Error

/-!
# Numbers and readers

Numbers are written as byte strings whose length is given, and writing refuses a number that does
not fit. A reader takes a value off the front of the unread bytes. The position is kept because a
refusal names it. Counts and lengths have a variable width: one byte below `0xfd`, else a marker
byte and the number in two, four or eight bytes. Writing takes the shortest form; reading takes any.

* `Reader.take_append`: a read takes exactly the bytes it asks for and leaves the others unread.
* `Reader.take_eq_error_iff`: a read fails exactly when the data end before it.
-/

namespace CoinSpend

/-! ## Numbers of fixed width -/

namespace Wire

/-- Writes a number as `size` bytes, most significant first. Model of `to_bytes_be_padded`. -/
def writeBE (size value : Nat) : Except Error (FixedBytes size) :=
  if Bytes.width value ≤ size then .ok (FixedBytes.ofNatBE size value)
  else .error (.numberTooWide (Bytes.width value) size)

/-- Reads a number of at most 64 bits, least significant byte first. Model of
`little_endian_to_u64`. -/
def readLE64 (bytes : Bytes) : Except Error Nat :=
  if bytes.length ≤ 8 then .ok (Bytes.toNatLE bytes) else .error (.tooManyBytes bytes.length)

/-- Writes a number of at most 64 bits as `size` bytes, least significant first. Model of
`u64_to_little_endian`. -/
def writeLE64 (size : Nat) (value : UInt64) : Except Error Bytes :=
  if Bytes.width value.toNat ≤ size then .ok (Bytes.ofNatLE size value.toNat)
  else .error (.valueTooWide value.toNat size)

end Wire

/-! ## Reading bytes in order -/

/-- The unread bytes, and how many were read before them. Model of the state of `Reader`. -/
structure Cursor where
  rest : Bytes
  position : Nat
deriving DecidableEq, Repr

/-- A reader of values of type `α`. -/
abbrev Reader (α : Type) := StateT Cursor (Except Error) α

namespace Reader

/-- Starts a reader at the first of the bytes. Model of `Reader.new`. -/
def start {α : Type} (reader : Reader α) (bytes : Bytes) : Except Error (α × Cursor) :=
  reader ⟨bytes, 0⟩

/-- Reads exactly `n` bytes. Model of `Reader.read_array`. -/
def take (n : Nat) : Reader (FixedBytes n) := fun cursor =>
  if h : (cursor.rest.take n).length = n then
    .ok (⟨cursor.rest.take n, h⟩, ⟨cursor.rest.drop n, cursor.position + n⟩)
  else .error (.endOfData n cursor.position cursor.rest.length)

/-- Reads `n` bytes as a byte string. Model of `Reader.read_bytes`. -/
def bytes (n : Nat) : Reader Bytes := do return (← take n).val

/-- Reads a number of `n` bytes, least significant first. -/
def number (n : Nat) : Reader Nat := do return Bytes.toNatLE (← take n).val

/-- Reads one byte. Model of `Reader.read_u8`. -/
def byte : Reader UInt8 := do return UInt8.ofNat (← number 1)

/-- Reads a 32-bit number, least significant byte first. Model of `Reader.read_u32_le`. -/
def uint32 : Reader UInt32 := do return UInt32.ofNat (← number 4)

/-- Reads a 64-bit number, least significant byte first. Model of `Reader.read_u64_le`. -/
def uint64 : Reader UInt64 := do return UInt64.ofNat (← number 8)

/-- The number of unread bytes. Model of `Reader.remaining`. -/
def remaining : Reader Nat := do return (← get).rest.length

/-- Reads `n` values in order. -/
def replicate {α : Type} (n : Nat) (reader : Reader α) : Reader (List α) :=
  match n with
  | 0 => pure []
  | n + 1 => do
    let head ← reader
    let tail ← replicate n reader
    return head :: tail

/-- A refusal. -/
def fail {α : Type} (e : Error) : Reader α := fun _ => .error e

theorem take_append {n : Nat} (taken : FixedBytes n) (rest : Bytes) (position : Nat) :
    take n ⟨taken.val ++ rest, position⟩ = .ok (taken, ⟨rest, position + n⟩) := by
  obtain ⟨taken, htaken⟩ := taken
  subst htaken
  simp [take]

theorem take_eq_error_iff {n : Nat} {cursor : Cursor} {e : Error} :
    take n cursor = .error e ↔
      cursor.rest.length < n ∧ e = .endOfData n cursor.position cursor.rest.length := by
  simp only [take, List.length_take]
  split
  · next h =>
    have hle : ¬ cursor.rest.length < n := by omega
    simp [hle]
  · next h =>
    have hlt : cursor.rest.length < n := by omega
    simp [hlt, eq_comm]

end Reader

/-! ## Lengths of variable width -/

namespace Varint

/-- The shortest form of a number below `2 ^ 64`. Model of `encode_varint`. -/
def encode (value : Nat) : Bytes :=
  if value < 0xfd then Bytes.ofNatLE 1 value
  else if value < 0x10000 then 0xfd :: Bytes.ofNatLE 2 value
  else if value < 0x100000000 then 0xfe :: Bytes.ofNatLE 4 value
  else 0xff :: Bytes.ofNatLE 8 value

/-- Reads a number in any of its forms. Model of `Reader.read_varint`. -/
def read : Reader Nat := do
  let first ← Reader.byte
  if first = 0xfd then Reader.number 2
  else if first = 0xfe then Reader.number 4
  else if first = 0xff then Reader.number 8
  else return first.toNat

end Varint

end CoinSpend
