import CoinSpend.Curve.Group

/-!
# Signatures

A signature is a pair of numbers between 1 and the order of secp256k1, which the type keeps. In its
DER form it is a sequence tag, the number of bytes that follow, and the two components, each with a
tag and a length of its own. Reading takes components with leading zeros. A signature of a hash is
checked against a public key.

* `ofComponents_eq_ok_iff`, `ofComponents_eq_error_iff`: exactly the pairs out of range are refused.
* `verifies_infinity`: no signature verifies under the point at infinity.
-/

namespace CoinSpend

/-! ## Pairs in range -/

/-- A signature `(r, s)`. Model of `Signature`. -/
structure Signature where
  r : Nat
  s : Nat
  r_pos : 0 < r
  r_lt : r < Secp256k1.n
  s_pos : 0 < s
  s_lt : s < Secp256k1.n
deriving DecidableEq, Repr

namespace Signature

/-- The signature with the given components. Model of `Signature.new`. -/
def ofComponents (r s : Nat) : Except Error Signature :=
  if h : 0 < r ∧ r < Secp256k1.n ∧ 0 < s ∧ s < Secp256k1.n then
    .ok ⟨r, s, h.1, h.2.1, h.2.2.1, h.2.2.2⟩
  else .error (.signatureOutOfRange r s)

/-- The written form of a signature. Model of the display of `Signature`. -/
def render (sig : Signature) : String := s!"Signature({Hex.ofNat sig.r},{Hex.ofNat sig.s})"

theorem ofComponents_components (sig : Signature) :
    ofComponents sig.r sig.s = .ok sig := by
  simp [ofComponents, sig.r_pos, sig.r_lt, sig.s_pos, sig.s_lt]

theorem ofComponents_eq_ok_iff {r s : Nat} {sig : Signature} :
    ofComponents r s = .ok sig ↔ sig.r = r ∧ sig.s = s := by
  constructor
  · intro h
    unfold ofComponents at h
    split at h
    · cases h
      exact ⟨rfl, rfl⟩
    · cases h
  · rintro ⟨rfl, rfl⟩
    exact ofComponents_components sig

theorem ofComponents_eq_error_iff {r s : Nat} {e : Error} :
    ofComponents r s = .error e ↔
      ¬(0 < r ∧ r < Secp256k1.n ∧ 0 < s ∧ s < Secp256k1.n) ∧ e = .signatureOutOfRange r s := by
  unfold ofComponents
  split
  · next h => simp [h]
  · next h => simp [h, eq_comm]

end Signature

/-! ## Signatures as bytes -/

namespace Signature

/-- The tag of a sequence. Model of `DER_SEQUENCE`. -/
def sequenceTag : UInt8 := 0x30

/-- The tag of an integer. Model of `DER_INTEGER`. -/
def integerTag : UInt8 := 0x02

/-- The bytes of a positive number, with a zero in front if the first would have its top bit set. -/
def positiveBytes (value : Nat) : Bytes :=
  match Bytes.digitsBE value with
  | [] => []
  | b :: bs => if b ≥ 0x80 then 0 :: b :: bs else b :: bs

/-- Writes a component. Model of `encode_der_integer`. -/
def componentDer (value : Nat) : Bytes :=
  let bytes := positiveBytes value
  integerTag :: UInt8.ofNat bytes.length :: bytes

/-- Writes a signature. Model of `Signature.der`. -/
def toDer (sig : Signature) : Bytes :=
  let body := componentDer sig.r ++ componentDer sig.s
  sequenceTag :: UInt8.ofNat body.length :: body

/-- Reads a component. Model of `read_der_integer`. -/
def readComponent : Reader Nat := do
  let tag ← Reader.byte
  if tag ≠ integerTag then Reader.fail (.badIntegerTag tag)
  else
    let length ← Reader.byte
    if length = 0 then Reader.fail .emptyInteger
    else return Bytes.toNatBE (← Reader.bytes length.toNat)

/-- Reads a signature that fills all unread bytes. Model of `Signature.parse` behind its start. -/
def readDer : Reader Signature := do
  let tag ← Reader.byte
  if tag ≠ sequenceTag then Reader.fail (.badSequenceTag tag)
  else
    let length ← Reader.byte
    let left ← Reader.remaining
    if length.toNat ≠ left then Reader.fail (.badSequenceLength length.toNat left)
    else
      let r ← readComponent
      let s ← readComponent
      if (← Reader.remaining) ≠ 0 then Reader.fail .trailingSignatureBytes
      else ofComponents r s

/-- Reads a signature from its DER form. Model of `Signature.parse`. -/
def ofDer (der : Bytes) : Except Error Signature := (readDer.start der).map Prod.fst

end Signature

/-! ## Checking signatures -/

namespace Signature

open Secp256k1 in
/-- The point `(z / s) · G + (r / s) · key`, whose x coordinate a valid signature repeats. Part of
`verifies`. -/
def recoverNonce (sig : Signature) (z : Nat) (key : Point) (inverse : Nat) :
    Except Error Point := do
  let u ← mulGenerator (z * inverse % n)
  let v ← mul key (sig.r * inverse % n)
  u.add v

/-- Whether a signature of the hash `z` is by the owner of the public key. Whatever goes wrong on
the way is a "no". Model of `verify`. -/
def verifies (sig : Signature) (z : Nat) (key : Point) : Bool :=
  if key.isInfinity then false
  else match Modular.inverseMod? sig.s Secp256k1.n with
    | none => false
    | some inverse => match sig.recoverNonce z key inverse with
      | .ok ⟨_, some (x, _)⟩ => x.num % Secp256k1.n == sig.r
      | _ => false

theorem verifies_infinity (sig : Signature) (z : Nat) (curve : Curve) :
    sig.verifies z (.infinity curve) = false := by
  simp [verifies, Point.isInfinity, Point.infinity]

end Signature

end CoinSpend
