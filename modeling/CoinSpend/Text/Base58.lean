import CoinSpend.Bytes
import CoinSpend.Text.Character

/-!
# Base 58

Bytes as text without the look-alike characters 0, O, I and l. Each leading zero byte is a leading
`1`; what follows is the number that the remaining bytes write, in base 58.

* `digitValue?_digit`: the alphabet's digits are told apart.
-/

namespace CoinSpend.Base58

/-- Why a text is no base-58 text. -/
inductive DecodeError where
  /-- The character at byte `place` is an ASCII character outside the alphabet. -/
  | badCharacter (c : Char) (place : Nat)
  /-- The character that starts at byte `place` is not ASCII. -/
  | notAscii (place : Nat)
deriving DecidableEq, Repr

/-- The wording of a fault. -/
def DecodeError.message : DecodeError → String
  | badCharacter c place =>
    s!"provided string contained invalid character {Quoted.ofChar c} at byte {place}"
  | notAscii place => s!"provided string contained non-ascii character starting at byte {place}"

/-- The digits in order of their value. -/
def alphabet : List Char := "123456789ABCDEFGHJKLMNPQRSTUVWXYZabcdefghijkmnopqrstuvwxyz".toList

/-- The digit of a number below 58. -/
def digit (n : Nat) : Char := alphabet.getD n '1'

/-- The value of a digit. -/
def digitValue? (c : Char) : Option Nat := alphabet.idxOf? c

/-- The values of the base-58 digits of a number, most significant first, before those in `tail`. -/
def digits (value : Nat) (tail : List Nat) : List Nat :=
  if value = 0 then tail else digits (value / 58) (value % 58 :: tail)

/-- Base-58 text of a byte string. Model of `encode_base58`. -/
def encode (bytes : Bytes) : String :=
  let zeros := bytes.takeWhile (· == 0)
  let value := Bytes.toNatBE (bytes.dropWhile (· == 0))
  String.ofList (zeros.map (fun _ => '1') ++ (digits value []).map digit)

/-- The values of the digits of a text. The first character that is no digit is reported; all before
it are ASCII, so its place counts bytes as well as characters. -/
def digitValues (place : Nat) : List Char → Except DecodeError (List Nat)
  | [] => .ok []
  | c :: rest =>
    if c.toNat > 127 then .error (.notAscii place)
    else match digitValue? c with
      | none => .error (.badCharacter c place)
      | some d => (digitValues (place + 1) rest).map (d :: ·)

/-- The bytes that a base-58 text writes. Model of `decode_base58`. -/
def decode (text : String) : Except DecodeError Bytes :=
  (digitValues 0 text.toList).map fun ds =>
    let zeros := ds.takeWhile (· == 0)
    let value := ds.foldl (fun value d => 58 * value + d) 0
    List.replicate zeros.length 0 ++ Bytes.digitsBE value

theorem digitValue?_digit {n : Nat} (h : n < 58) : digitValue? (digit n) = some n := by
  have : ∀ m : Fin 58, digitValue? (digit m.val) = some m.val := by decide
  exact this ⟨n, h⟩

end CoinSpend.Base58
