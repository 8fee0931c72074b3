import CoinSpend.Bytes

/-!
# Digests

The three hash functions, and the digests that are made of them: those that name keys, scripts and
transactions, and the keyed one behind signing nonces. A message is padded to whole blocks of 64
bytes, each block is read as sixteen 32-bit words, and a compression function folds the blocks into
a state.

* `sha256`: FIPS 180-4, with eight words of state and sixty-four rounds.
* `sha1`: FIPS 180-4, with five words of state and eighty rounds.
* `ripemd160`: two lines of eighty steps over five words of state.
* `hmacSha256_append`: the parts of a keyed message are read as one text.
-/

namespace CoinSpend.Hash

/-! ## Messages as blocks of words -/

/-- The number of bytes in a block. -/
def blockSize : Nat := 64

/-- Rotates the bits of a word to the left. -/
def rotateLeft (x : UInt32) (n : UInt32) : UInt32 := (x <<< n) ||| (x >>> (32 - n))

/-- Rotates the bits of a word to the right. -/
def rotateRight (x : UInt32) (n : UInt32) : UInt32 := (x >>> n) ||| (x <<< (32 - n))

/-- The message, a byte `0x80`, zeros up to eight bytes before the end of a block, and the eight
bytes of the message's length in bits, which `writeLength` puts in order. -/
def pad (writeLength : Nat → Bytes) (message : Bytes) : Bytes :=
  message ++ [0x80] ++ List.replicate ((119 - message.length % 64) % 64) 0
    ++ writeLength (8 * message.length)

/-- Cuts a message into whole blocks. -/
def blocks (message : Bytes) : List Bytes :=
  if _h : (message.take blockSize).length = blockSize then
    message.take blockSize :: blocks (message.drop blockSize)
  else []
termination_by message.length
decreasing_by
  simp only [List.length_take, blockSize] at _h
  simp only [List.length_drop, blockSize]
  omega

/-- Reads words of four bytes, each with `toNat`. -/
def words (toNat : Bytes → Nat) : Bytes → List UInt32
  | a :: b :: c :: d :: rest => UInt32.ofNat (toNat [a, b, c, d]) :: words toNat rest
  | _ => []

/-- A state of five words. -/
structure FiveWords where
  a : UInt32
  b : UInt32
  c : UInt32
  d : UInt32
  e : UInt32

namespace FiveWords

/-- The words in order. -/
def toList (s : FiveWords) : List UInt32 := [s.a, s.b, s.c, s.d, s.e]

/-- The state that both five-word functions start from. -/
def initial : FiveWords := ⟨0x67452301, 0xefcdab89, 0x98badcfe, 0x10325476, 0xc3d2e1f0⟩

/-- The twenty bytes of a state, each word written by `write`. -/
def digest (write : Nat → Nat → Bytes) (hwrite : ∀ n value, (write n value).length = n)
    (s : FiveWords) : FixedBytes 20 :=
  ⟨s.toList.flatMap fun w => write 4 w.toNat, by simp [toList, hwrite]⟩

end FiveWords

/-! ## SHA-256 -/

namespace Sha256

/-- The eight working words. -/
structure State where
  a : UInt32
  b : UInt32
  c : UInt32
  d : UInt32
  e : UInt32
  f : UInt32
  g : UInt32
  h : UInt32

/-- The words in order. -/
def State.toList (s : State) : List UInt32 := [s.a, s.b, s.c, s.d, s.e, s.f, s.g, s.h]

/-- The words of two states, added one by one. -/
def State.add (s t : State) : State :=
  ⟨s.a + t.a, s.b + t.b, s.c + t.c, s.d + t.d, s.e + t.e, s.f + t.f, s.g + t.g, s.h + t.h⟩

/-- The state before the first block. -/
def initial : State :=
  ⟨0x6a09e667, 0xbb67ae85, 0x3c6ef372, 0xa54ff53a, 0x510e527f, 0x9b05688c, 0x1f83d9ab, 0x5be0cd19⟩

/-- The constants of the sixty-four rounds. -/
def roundConstants : List UInt32 := [
  0x428a2f98, 0x71374491, 0xb5c0fbcf, 0xe9b5dba5, 0x3956c25b, 0x59f111f1, 0x923f82a4, 0xab1c5ed5,
  0xd807aa98, 0x12835b01, 0x243185be, 0x550c7dc3, 0x72be5d74, 0x80deb1fe, 0x9bdc06a7, 0xc19bf174,
  0xe49b69c1, 0xefbe4786, 0x0fc19dc6, 0x240ca1cc, 0x2de92c6f, 0x4a7484aa, 0x5cb0a9dc, 0x76f988da,
  0x983e5152, 0xa831c66d, 0xb00327c8, 0xbf597fc7, 0xc6e00bf3, 0xd5a79147, 0x06ca6351, 0x14292967,
  0x27b70a85, 0x2e1b2138, 0x4d2c6dfc, 0x53380d13, 0x650a7354, 0x766a0abb, 0x81c2c92e, 0x92722c85,
  0xa2bfe8a1, 0xa81a664b, 0xc24b8b70, 0xc76c51a3, 0xd192e819, 0xd6990624, 0xf40e3585, 0x106aa070,
  0x19a4c116, 0x1e376c08, 0x2748774c, 0x34b0bcb5, 0x391c0cb3, 0x4ed8aa4a, 0x5b9cca4f, 0x682e6ff3,
  0x748f82ee, 0x78a5636f, 0x84c87814, 0x8cc70208, 0x90befffa, 0xa4506ceb, 0xbef9a3f7, 0xc67178f2]

/-- Extends a schedule, held with the newest word first, by `n` words. -/
def extend : Nat → List UInt32 → List UInt32
  | 0, ws => ws
  | n + 1, ws =>
    let w2 := ws.getD 1 0
    let w15 := ws.getD 14 0
    let s0 := rotateRight w15 7 ^^^ rotateRight w15 18 ^^^ (w15 >>> 3)
    let s1 := rotateRight w2 17 ^^^ rotateRight w2 19 ^^^ (w2 >>> 10)
    extend n ((ws.getD 15 0 + s0 + ws.getD 6 0 + s1) :: ws)

/-- The sixty-four schedule words of a block. -/
def schedule (block : Bytes) : List UInt32 :=
  (extend 48 (words Bytes.toNatBE block).reverse).reverse

/-- One round, with its constant and its schedule word. -/
def round (s : State) (kw : UInt32 × UInt32) : State :=
  let s1 := rotateRight s.e 6 ^^^ rotateRight s.e 11 ^^^ rotateRight s.e 25
  let choice := (s.e &&& s.f) ^^^ (~~~s.e &&& s.g)
  let t1 := s.h + s1 + choice + kw.1 + kw.2
  let s0 := rotateRight s.a 2 ^^^ rotateRight s.a 13 ^^^ rotateRight s.a 22
  let majority := (s.a &&& s.b) ^^^ (s.a &&& s.c) ^^^ (s.b &&& s.c)
  ⟨t1 + (s0 + majority), s.a, s.b, s.c, s.d + t1, s.e, s.f, s.g⟩

/-- Folds one block into the state. -/
def compress (s : State) (block : Bytes) : State :=
  s.add ((roundConstants.zip (schedule block)).foldl round s)

/-- The thirty-two bytes of a state. -/
def digest (s : State) : FixedBytes 32 :=
  ⟨s.toList.flatMap fun w => Bytes.ofNatBE 4 w.toNat, by simp [State.toList]⟩

end Sha256

/-- The SHA-256 digest of a message. Model of `sha256_digest`. -/
def sha256 (message : Bytes) : FixedBytes 32 :=
  Sha256.digest ((blocks (pad (Bytes.ofNatBE 8) message)).foldl Sha256.compress Sha256.initial)

/-! ## SHA-1 -/

namespace Sha1

/-- Extends a schedule, held with the newest word first, by `n` words. -/
def extend : Nat → List UInt32 → List UInt32
  | 0, ws => ws
  | n + 1, ws =>
    let mixed := ws.getD 2 0 ^^^ ws.getD 7 0 ^^^ ws.getD 13 0 ^^^ ws.getD 15 0
    extend n (rotateLeft mixed 1 :: ws)

/-- The eighty schedule words of a block. -/
def schedule (block : Bytes) : List UInt32 :=
  (extend 64 (words Bytes.toNatBE block).reverse).reverse

/-- The mixing function and the constant of round `t`. -/
def roundFunction (t : Nat) (b c d : UInt32) : UInt32 × UInt32 :=
  if t < 20 then ((b &&& c) ||| (~~~b &&& d), 0x5a827999)
  else if t < 40 then (b ^^^ c ^^^ d, 0x6ed9eba1)
  else if t < 60 then ((b &&& c) ||| (b &&& d) ||| (c &&& d), 0x8f1bbcdc)
  else (b ^^^ c ^^^ d, 0xca62c1d6)

/-- One round, with its schedule word and its number. -/
def round (s : FiveWords) (wt : UInt32 × Nat) : FiveWords :=
  let (mixed, constant) := roundFunction wt.2 s.b s.c s.d
  ⟨rotateLeft s.a 5 + mixed + s.e + constant + wt.1, s.a, rotateLeft s.b 30, s.c, s.d⟩

/-- Folds one block into the state. -/
def compress (s : FiveWords) (block : Bytes) : FiveWords :=
  let t := (schedule block).zipIdx.foldl round s
  ⟨s.a + t.a, s.b + t.b, s.c + t.c, s.d + t.d, s.e + t.e⟩

end Sha1

/-- The SHA-1 digest of a message. Model of `sha1_digest`. -/
def sha1 (message : Bytes) : FixedBytes 20 :=
  ((blocks (pad (Bytes.ofNatBE 8) message)).foldl Sha1.compress FiveWords.initial).digest
    Bytes.ofNatBE Bytes.length_ofNatBE

/-! ## RIPEMD-160 -/

namespace Ripemd160

/-- One step of a line: the place of its message word, its rotation, its constant, and the number
of its mixing function. -/
structure Step where
  word : Nat
  rotation : UInt32
  constant : UInt32
  mixing : Nat

/-- Sixteen steps that share a constant and a mixing function. -/
def row (constant : UInt32) (mixing : Nat) (places : List Nat) (rotations : List UInt32) :
    List Step :=
  (places.zip rotations).map fun (word, rotation) => ⟨word, rotation, constant, mixing⟩

/-- The steps of the left line. -/
def leftLine : List Step :=
  row 0x00000000 0 [0, 1, 2, 3, 4, 5, 6, 7, 8, 9, 10, 11, 12, 13, 14, 15]
      [11, 14, 15, 12, 5, 8, 7, 9, 11, 13, 14, 15, 6, 7, 9, 8]
    ++ row 0x5a827999 1 [7, 4, 13, 1, 10, 6, 15, 3, 12, 0, 9, 5, 2, 14, 11, 8]
      [7, 6, 8, 13, 11, 9, 7, 15, 7, 12, 15, 9, 11, 7, 13, 12]
    ++ row 0x6ed9eba1 2 [3, 10, 14, 4, 9, 15, 8, 1, 2, 7, 0, 6, 13, 11, 5, 12]
      [11, 13, 6, 7, 14, 9, 13, 15, 14, 8, 13, 6, 5, 12, 7, 5]
    ++ row 0x8f1bbcdc 3 [1, 9, 11, 10, 0, 8, 12, 4, 13, 3, 7, 15, 14, 5, 6, 2]
      [11, 12, 14, 15, 14, 15, 9, 8, 9, 14, 5, 6, 8, 6, 5, 12]
    ++ row 0xa953fd4e 4 [4, 0, 5, 9, 7, 12, 2, 10, 14, 1, 3, 8, 11, 6, 15, 13]
      [9, 15, 5, 11, 6, 8, 13, 12, 5, 12, 13, 14, 11, 8, 5, 6]

/-- The steps of the right line. -/
def rightLine : List Step :=
  row 0x50a28be6 4 [5, 14, 7, 0, 9, 2, 11, 4, 13, 6, 15, 8, 1, 10, 3, 12]
      [8, 9, 9, 11, 13, 15, 15, 5, 7, 7, 8, 11, 14, 14, 12, 6]
    ++ row 0x5c4dd124 3 [6, 11, 3, 7, 0, 13, 5, 10, 14, 15, 8, 12, 4, 9, 1, 2]
      [9, 13, 15, 7, 12, 8, 9, 11, 7, 7, 12, 7, 6, 15, 13, 11]
    ++ row 0x6d703ef3 2 [15, 5, 1, 3, 7, 14, 6, 9, 11, 8, 12, 2, 10, 0, 4, 13]
      [9, 7, 15, 11, 8, 6, 6, 14, 12, 13, 5, 14, 13, 13, 7, 5]
    ++ row 0x7a6d76e9 1 [8, 6, 4, 1, 3, 11, 15, 0, 5, 12, 2, 13, 9, 7, 10, 14]
      [15, 5, 8, 11, 14, 14, 6, 14, 6, 9, 12, 9, 12, 5, 15, 8]
    ++ row 0x00000000 0 [12, 15, 10, 4, 1, 5, 8, 7, 6, 2, 13, 14, 0, 3, 9, 11]
      [8, 5, 12, 9, 12, 5, 14, 6, 8, 13, 6, 5, 15, 13, 11, 11]

/-- The mixing functions by number. -/
def mix (mixing : Nat) (x y z : UInt32) : UInt32 :=
  match mixing with
  | 0 => x ^^^ y ^^^ z
  | 1 => (x &&& y) ||| (~~~x &&& z)
  | 2 => (x ||| ~~~y) ^^^ z
  | 3 => (x &&& z) ||| (y &&& ~~~z)
  | _ => x ^^^ (y ||| ~~~z)

/-- Runs one step of a line on the sixteen words of a block. -/
def runStep (block : List UInt32) (s : FiveWords) (step : Step) : FiveWords :=
  let sum := s.a + mix step.mixing s.b s.c s.d + block.getD step.word 0 + step.constant
  ⟨s.e, rotateLeft sum step.rotation + s.e, s.b, rotateLeft s.c 10, s.d⟩

/-- Folds one block into the state. -/
def compress (s : FiveWords) (block : Bytes) : FiveWords :=
  let ws := words Bytes.toNatLE block
  let l := leftLine.foldl (runStep ws) s
  let r := rightLine.foldl (runStep ws) s
  ⟨s.b + l.c + r.d, s.c + l.d + r.e, s.d + l.e + r.a, s.e + l.a + r.b, s.a + l.b + r.c⟩

end Ripemd160

/-- The RIPEMD-160 digest of a message. Model of `ripemd160_digest`. -/
def ripemd160 (message : Bytes) : FixedBytes 20 :=
  ((blocks (pad (Bytes.ofNatLE 8) message)).foldl Ripemd160.compress FiveWords.initial).digest
    Bytes.ofNatLE Bytes.length_ofNatLE

/-! ## Composed digests -/

/-- RIPEMD-160 of SHA-256: the hash that names public keys and scripts. Model of `hash160`. -/
def hash160 (message : Bytes) : FixedBytes 20 := ripemd160 (sha256 message).val

/-- SHA-256 twice: the hash that names transactions. Model of `hash256`. -/
def hash256 (message : Bytes) : FixedBytes 32 := sha256 (sha256 message).val

/-- A key as one block: hashed if longer than a block, then filled up with zeros. -/
def hmacKey (key : Bytes) : Bytes :=
  let short := if key.length ≤ blockSize then key else (sha256 key).val
  short ++ List.replicate (blockSize - short.length) 0

/-- HMAC-SHA256 of the parts taken as one message. Model of `hmac_sha256`. -/
def hmacSha256 (key : Bytes) (parts : List Bytes) : FixedBytes 32 :=
  let block := hmacKey key
  let inner := sha256 (block.map (· ^^^ 0x36) ++ parts.flatten)
  sha256 (block.map (· ^^^ 0x5c) ++ inner.val)

theorem hmacSha256_append (key x y : Bytes) (parts : List Bytes) :
    hmacSha256 key (x :: y :: parts) = hmacSha256 key ((x ++ y) :: parts) := by
  simp [hmacSha256]

end CoinSpend.Hash
