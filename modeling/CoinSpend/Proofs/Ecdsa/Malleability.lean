import CoinSpend.Proofs.Curve.Order
import CoinSpend.Proofs.Ecdsa.SignVerify
import Mathlib

/-!
# The twin of a signature

Verification uses the hash and the components of a signature through their residues modulo `n` only,
and it compares an x coordinate, which a point shares with its negative. So every signature `(r, s)`
has a twin `(r, n - s)`, and under every point of the curve both are valid or neither is.

Results:
* `Signature.nonceSum_twin`: the twin leads verification to the opposite point.
* `Signature.verifies_residues`: a signature, its twin and its low form are valid together, for all
  hashes of one residue.
-/

namespace CoinSpend

open Secp256k1 (n)

namespace Secp256k1

/-- Every point has an order that divides `n`, so residues modulo `n` are scalars. -/
instance : Module (ZMod n) Group := AddCommGroup.zmodModule order_nsmul

end Secp256k1

namespace Signature

variable {sig sig' : Signature} {z z' : ℕ} {P : Point}

/-- The same first component with the negative of the second one. -/
def twin (sig : Signature) : Signature where
  r := sig.r
  s := n - sig.s
  r_pos := sig.r_pos
  r_lt := sig.r_lt
  s_pos := Nat.sub_pos_of_lt sig.s_lt
  s_lt := Nat.sub_lt (by decide) sig.s_pos

theorem natCast_twin_s (sig : Signature) : (sig.twin.s : ZMod n) = -sig.s := by
  rw [twin, Nat.cast_sub sig.s_lt.le, ZMod.natCast_self, zero_sub]

/-- The low form of a signature is the signature itself or its twin. -/
theorem ofComponents_lowS (sig : Signature) :
    ofComponents sig.r (PrivateKey.lowS sig.s) = .ok sig ∨
      ofComponents sig.r (PrivateKey.lowS sig.s) = .ok sig.twin := by
  unfold PrivateKey.lowS
  split
  · exact .inr sig.twin.ofComponents_components
  · exact .inl sig.ofComponents_components

/-! ## The point that verification computes -/

theorem nonceSum_eq (sig : Signature) (z : ℕ) (Q : Secp256k1.Group) :
    sig.nonceSum z Q =
      (z / sig.s : ZMod n) • Secp256k1.basePoint + (sig.r / sig.s : ZMod n) • Q := rfl

/-- The twin has both scalars negated, also where one of them is zero. -/
theorem nonceSum_twin (sig : Signature) (z : ℕ) (Q : Secp256k1.Group) :
    sig.twin.nonceSum z Q = -sig.nonceSum z Q := by
  have hr : sig.twin.r = sig.r := rfl
  rw [nonceSum_eq, nonceSum_eq, hr, natCast_twin_s, div_neg, div_neg, neg_smul, neg_smul,
    ← neg_add]

theorem nonceSum_congr (hz : z' ≡ z [MOD n]) (sig : Signature) (Q : Secp256k1.Group) :
    sig.nonceSum z' Q = sig.nonceSum z Q := by
  rw [nonceSum_eq, nonceSum_eq, (ZMod.natCast_eq_natCast_iff z' z n).mpr hz]

/-! ## Verification -/

/-- Signatures that lead to points with the same x coordinate, if to any, are valid together. -/
theorem verifies_congr (hP : P.IsOn Secp256k1.curve) (hr : sig'.r = sig.r)
    (hsum : ∀ Q, Secp256k1.abscissa? (sig'.nonceSum z' Q) =
      Secp256k1.abscissa? (sig.nonceSum z Q)) :
    sig'.verifies z' P = sig.verifies z P := by
  obtain ⟨Q, rfl⟩ := Secp256k1.isOn_curve_iff.mp hP
  by_cases hQ : Q = 0
  · rw [hQ, Point.ofAffine_zero, verifies_infinity, verifies_infinity]
  · rw [Bool.eq_iff_iff, verifies_ofAffine_iff _ _ hQ, verifies_ofAffine_iff _ _ hQ, hsum, hr]

theorem verifies_twin (hP : P.IsOn Secp256k1.curve) (sig : Signature) (z : ℕ) :
    sig.twin.verifies z P = sig.verifies z P := by
  refine verifies_congr hP rfl fun Q => ?_
  rw [nonceSum_twin, Secp256k1.abscissa?_neg]

theorem verifies_of_modEq (hP : P.IsOn Secp256k1.curve) (hz : z' ≡ z [MOD n]) (sig : Signature) :
    sig.verifies z' P = sig.verifies z P := by
  refine verifies_congr hP rfl fun Q => ?_
  rw [nonceSum_congr hz]

/-- Under every point of secp256k1, a signature is valid exactly if its twin is, and so is its low
form, the one of the two that signing makes. Only the residue of the hash modulo `n` counts. -/
theorem verifies_residues (hP : P.IsOn Secp256k1.curve) (sig : Signature) (z : ℕ) :
    (∃ twin, ofComponents sig.r (n - sig.s) = .ok twin ∧
      twin.verifies z P = sig.verifies z P) ∧
    (∃ low, ofComponents sig.r (PrivateKey.lowS sig.s) = .ok low ∧
      low.verifies z P = sig.verifies z P) ∧
    sig.verifies (z + n) P = sig.verifies z P ∧
    ∀ z', z' % n = z % n → sig.verifies z' P = sig.verifies z P := by
  have htwin := verifies_twin hP sig z
  have hsum : z + n ≡ z [MOD n] := Nat.add_modEq_right
  refine ⟨⟨sig.twin, sig.twin.ofComponents_components, htwin⟩, ?_,
    verifies_of_modEq hP hsum sig, fun z' hz => verifies_of_modEq hP hz sig⟩
  rcases sig.ofComponents_lowS with hlow | hlow
  · exact ⟨sig, hlow, rfl⟩
  · exact ⟨sig.twin, hlow, htwin⟩

/-- The twin of a signature that the key with the secret 2 makes is valid as well, and the hash `n`
may be replaced by zero. -/
theorem verifies_residues_two_order :
    ∃ key sig twin, PrivateKey.ofSecret 2 = .ok key ∧ key.point.IsOn Secp256k1.curve ∧
      key.sign n = .ok sig ∧ ofComponents sig.r (n - sig.s) = .ok twin ∧
      sig.verifies n key.point = true ∧ twin.verifies n key.point = true ∧
      sig.verifies 0 key.point = true := by
  obtain ⟨key, hkey, hsecret⟩ := PrivateKey.exists_ofSecret (show 0 < 2 by decide) (by decide)
  obtain ⟨sig, hsig⟩ := PrivateKey.exists_sign_two_order hsecret
  obtain ⟨nonce, -, hnonce⟩ := PrivateKey.exists_signWith?_of_sign hsig
  have hvalid : sig.verifies n key.point = true := PrivateKey.verifies_of_signWith? hnonce
  have hpoint : key.point.IsOn Secp256k1.curve :=
    Secp256k1.isOn_curve_iff.mpr ⟨_, key.point_eq_ofAffine.symm⟩
  obtain ⟨⟨twin, htwin, hsame⟩, -, -, hmod⟩ := verifies_residues hpoint sig n
  refine ⟨key, sig, twin, hkey, hpoint, hsig, htwin, hvalid, hsame.trans hvalid, ?_⟩
  rw [hmod 0 (by decide), hvalid]

end Signature

end CoinSpend
