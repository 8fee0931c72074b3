import CoinSpend.Curve.Group
import CoinSpend.Ecdsa.Nonce
import CoinSpend.Ecdsa.Signature

/-!
# Private keys and signing

A private key is a secret between 1 and the group order, together with its public point.

* `lowS_le`: a signature's second component is at most half of the group order.
-/

namespace CoinSpend

/-- A secret and the public point that belongs to it. Model of `PrivateKey`. -/
structure PrivateKey where
  secret : Nat
  secret_pos : 0 < secret
  secret_lt : secret < Secp256k1.n
  point : Point
  point_eq : Secp256k1.mulGenerator secret = .ok point

namespace PrivateKey

/-- The key with the given secret. Model of `PrivateKey.new`. -/
def ofSecret (secret : Nat) : Except Error PrivateKey :=
  if h : 0 < secret ∧ secret < Secp256k1.n then
    match hpoint : Secp256k1.mulGenerator secret with
    | .ok point => .ok ⟨secret, h.1, h.2, point, hpoint⟩
    | .error e => .error e
  else .error .secretOutOfRange

/-- The key whose secret is the first of the random blocks that can be one. Model of
`PrivateKey.generate`. -/
def ofRandom? (blocks : List (FixedBytes 32)) : Option (Except Error PrivateKey) :=
  ((blocks.map fun block => Bytes.toNatBE block.val).find? Nonce.usable).map ofSecret

/-- The secret in 64 hexadecimal digits. Model of `PrivateKey.hex`. -/
def hex (key : PrivateKey) : String := Hex.encode (Bytes.ofNatBE 32 key.secret)

/-- The public key as bytes. Model of `PrivateKey.sec`. -/
def sec (key : PrivateKey) (compressed : Bool) : Except Error Bytes := key.point.toSec compressed

/-- The smaller of `s` and its negative modulo the group order. Part of `signWith?`. -/
def lowS (s : Nat) : Nat := if Secp256k1.n / 2 < s then Secp256k1.n - s else s

/-- The signature of the hash `z` with a nonce, if the nonce yields one. Model of one pass of the
loop of `PrivateKey.sign`. -/
def signWith? (key : PrivateKey) (z nonce : Nat) : Except Error (Option Signature) := do
  match (← Secp256k1.mulGenerator nonce).coordinates, Modular.inverseMod? nonce Secp256k1.n with
  | some (x, _), some inverse =>
    let r := x.num % Secp256k1.n
    let s := (z + r * key.secret) * inverse % Secp256k1.n
    if r = 0 ∨ s = 0 then return none
    else return some (← Signature.ofComponents r (lowS s))
  | _, _ => return none

/-- Signs with the first of the next `bound` nonces that yields a signature. Model of the loop of
`PrivateKey.sign`. -/
def signFrom (key : PrivateKey) (z : Nat) : Nat → Nonce.State → Except Error Signature
  | 0, _ => .error .nonceSearchExhausted
  | bound + 1, state =>
    match Nonce.next? state with
    | none => .error .nonceSearchExhausted
    | some (nonce, state) => do
      match ← key.signWith? z nonce with
      | some sig => return sig
      | none => key.signFrom z bound state

/-- The deterministic signature of the hash `z`. Model of `PrivateKey.sign`. -/
def sign (key : PrivateKey) (z : Nat) : Except Error Signature := do
  key.signFrom z Nonce.searchBound (← Nonce.start key.secret z)

theorem lowS_le (s : Nat) : lowS s ≤ Secp256k1.n / 2 := by
  unfold lowS
  split
  · have : Secp256k1.n % 2 = 1 := by decide
    omega
  · omega

end PrivateKey

end CoinSpend
