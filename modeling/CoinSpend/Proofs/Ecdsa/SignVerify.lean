import CoinSpend.Ecdsa.PrivateKey
import CoinSpend.Ecdsa.Signature
import CoinSpend.Proofs.Curve.Generator
import CoinSpend.Proofs.Outcome
import CoinSpend.Proofs.Wire.Reads

/-!
# Signatures verify

A signature `(r, s)` made with a nonce `k` satisfies `s · k = ±(z + r · d)` modulo `n`, so the point
that verification computes is `±(k · G)`. Both have the x coordinate that `r` was taken from.

Results:
* `verifies_ofAffine_iff`: what verification tests, for a public key in the group.
* `signWith?_eq_some`: what a nonce yields.
* `verifies_of_signWith?`: what a nonce yields verifies under the key.
* `eq_of_sign_eq_error`: signing fails for the lack of a nonce only.
* `sign_low_and_verifies`: every signature that a key makes is low and verifies under the key.
-/

namespace CoinSpend

open Secp256k1 (n basePoint)
open WeierstrassCurve (Affine)

/-- The x coordinate of a point as a number modulo the group order, which the first component of a
signature repeats. -/
def Secp256k1.abscissa? : Secp256k1.Group → Option ℕ
  | .zero => none
  | .some x _ _ => some (x.val % n)

theorem Secp256k1.abscissa?_neg (P : Secp256k1.Group) :
    Secp256k1.abscissa? (-P) = Secp256k1.abscissa? P := by
  cases P <;> rfl

/-! ## Verification -/

namespace Signature

theorem s_ne_zero (sig : Signature) : (sig.s : ZMod n) ≠ 0 := by
  rw [ne_eq, ZMod.natCast_eq_zero_iff]
  exact Nat.not_dvd_of_pos_of_lt sig.s_pos sig.s_lt

/-- The multiple of the generator and that of the public key that verification adds. -/
def nonceSum (sig : Signature) (z : ℕ) (P : Secp256k1.Group) : Secp256k1.Group :=
  (z / sig.s : ZMod n).val • basePoint + (sig.r / sig.s : ZMod n).val • P

theorem recoverNonce_ofAffine (sig : Signature) (z : ℕ) (P : Secp256k1.Group) :
    sig.recoverNonce z (.ofAffine P) (sig.s : ZMod n)⁻¹.val =
      .ok (.ofAffine (sig.nonceSum z P)) := by
  have hscalar : ∀ value : ℕ, value * (sig.s : ZMod n)⁻¹.val % n =
      (value / sig.s : ZMod n).val := by
    intro value
    rw [← ZMod.val_natCast]
    push_cast
    rw [ZMod.natCast_zmod_val, div_eq_mul_inv]
  have hreduced : (sig.r / sig.s : ZMod n).val % n = (sig.r / sig.s : ZMod n).val :=
    Nat.mod_eq_of_lt (ZMod.val_lt _)
  unfold recoverNonce
  rw [hscalar, hscalar, Secp256k1.mulGenerator_eq, Secp256k1.mul_ofAffine, hreduced]
  exact Point.add_ofAffine Secp256k1.p_ne_two _ _

/-- Under a public key other than infinity, verification compares the x coordinate of a sum. -/
theorem verifies_ofAffine_iff (sig : Signature) (z : ℕ) {P : Secp256k1.Group} (hP : P ≠ 0) :
    sig.verifies z (.ofAffine P) = true ↔
      Secp256k1.abscissa? (sig.nonceSum z P) = some sig.r := by
  have hinfinity : (Point.ofAffine P).isInfinity = false := by
    cases P with
    | zero => exact absurd rfl hP
    | some x y h => rfl
  unfold verifies
  rw [hinfinity, FieldElement.inverseMod?_eq, if_neg sig.s_ne_zero]
  simp only [Bool.false_eq_true, if_false]
  rw [recoverNonce_ofAffine]
  cases sig.nonceSum z P with
  | zero => simp [Point.ofAffine, Point.infinity, Secp256k1.abscissa?]
  | some x y h => simp [Point.affine, Secp256k1.abscissa?]

end Signature

/-! ## Signing -/

namespace Nonce

theorem start_eq {secret z : ℕ} (hsecret : secret < 256 ^ 32)
    (hz : (if n < z then z - n else z) < 256 ^ 32) :
    start secret z = .ok (State.seed (.ofNatBE 32 secret)
      (.ofNatBE 32 (if n < z then z - n else z))) := by
  unfold start
  rw [Wire.writeBE_eq_ok_iff.mpr ⟨hz, rfl⟩, Wire.writeBE_eq_ok_iff.mpr ⟨hsecret, rfl⟩]
  rfl

theorem firstUsable?_succ {bound : ℕ} {state : State} (h : usable state.draw.1 = true) :
    firstUsable? (bound + 1) state = some state.draw := by
  unfold firstUsable?
  generalize state.draw = drawn at h ⊢
  obtain ⟨candidate, next⟩ := drawn
  exact if_pos h

/-- The first candidate is the nonce if it is usable. -/
theorem next?_of_draw {state : State} {nonce : ℕ} (hdraw : state.draw.1 = nonce)
    (h : usable nonce = true) : next? state = some (nonce, state.draw.2) := by
  subst hdraw
  exact firstUsable?_succ h

end Nonce

namespace PrivateKey

theorem secret_ne_zero (key : PrivateKey) : (key.secret : ZMod n) ≠ 0 := by
  rw [ne_eq, ZMod.natCast_eq_zero_iff]
  exact Nat.not_dvd_of_pos_of_lt key.secret_pos key.secret_lt

/-- The public point is the multiple of the generator by the secret. -/
theorem point_eq_ofAffine (key : PrivateKey) : key.point = .ofAffine (key.secret • basePoint) := by
  have h := key.point_eq
  rw [Secp256k1.mulGenerator_eq, Except.ok.injEq] at h
  exact h.symm

theorem secret_nsmul_ne_zero (key : PrivateKey) : key.secret • basePoint ≠ 0 := by
  rw [ne_eq, Secp256k1.nsmul_basePoint_eq_zero_iff]
  exact key.secret_ne_zero

/-- Every number between 1 and the group order is the secret of a key. -/
theorem exists_ofSecret {secret : ℕ} (hpos : 0 < secret) (hlt : secret < n) :
    ∃ key, ofSecret secret = .ok key ∧ key.secret = secret := by
  unfold ofSecret
  rw [dif_pos ⟨hpos, hlt⟩]
  split
  · next point hpoint => exact ⟨_, rfl, rfl⟩
  · next e hpoint => simp [Secp256k1.mulGenerator_eq] at hpoint

/-- The public point of the secret 1 is the generator. -/
theorem point_eq_generator {key : PrivateKey} (h : key.secret = 1) :
    key.point = Secp256k1.generator := by
  rw [point_eq_ofAffine, h, one_nsmul, Secp256k1.ofAffine_basePoint]

/-- Up to its sign, the second component is what the equation of the signature asks for. -/
theorem natCast_lowS {s : ℕ} (h : s < n) : (lowS s : ZMod n) = s ∨ (lowS s : ZMod n) = -s := by
  unfold lowS
  split
  · right
    rw [Nat.cast_sub h.le, ZMod.natCast_self, zero_sub]
  · left
    rfl

/-- What is computed from the two components when the nonce has a finite point and an inverse. -/
theorem signWith?_of_point (key : PrivateKey) (z : ℕ) {nonce inverse r s : ℕ} {curve : Curve}
    {x y : FieldElement} (hpoint : Secp256k1.mulGenerator nonce = .ok (.affine curve x y))
    (hinverse : Modular.inverseMod? nonce n = some inverse) (hr : x.num % n = r)
    (hs : (z + r * key.secret) * inverse % n = s) :
    key.signWith? z nonce =
      if r = 0 ∨ s = 0 then .ok none else (Signature.ofComponents r (lowS s)).map some := by
  subst hr hs
  unfold signWith?
  rw [hpoint, hinverse]
  rfl

/-- Two components other than zero make a signature. -/
theorem exists_ofComponents_lowS {r s : ℕ} (hr : r < n) (hs : s < n) (h : ¬(r = 0 ∨ s = 0)) :
    ∃ sig, Signature.ofComponents r (lowS s) = .ok sig := by
  have hlow : 0 < lowS s ∧ lowS s < n := by
    unfold lowS
    split <;> omega
  unfold Signature.ofComponents
  rw [dif_pos ⟨by omega, hr, hlow.1, hlow.2⟩]
  exact ⟨_, rfl⟩

/-- A nonce yields a signature only if its multiple of the generator is finite. Then `r` is the x
coordinate of that point, and `s` satisfies `s · nonce = ±(z + r · secret)`. -/
theorem signWith?_eq_some {key : PrivateKey} {z nonce : ℕ} {sig : Signature}
    (h : key.signWith? z nonce = .ok (some sig)) :
    Secp256k1.abscissa? (nonce • basePoint) = some sig.r ∧ sig.s ≤ n / 2 ∧
      ((sig.s * nonce : ZMod n) = z + sig.r * key.secret ∨
        (sig.s * nonce : ZMod n) = -(z + sig.r * key.secret)) := by
  have hpoint := Secp256k1.mulGenerator_eq nonce
  have hinverse := FieldElement.inverseMod?_eq (m := n) nonce
  cases hR : nonce • basePoint with
  | zero =>
    unfold signWith? at h
    rw [hpoint, hR] at h
    simp [Point.ofAffine, Point.infinity, bind, Except.bind, pure, Except.pure] at h
  | some x y hxy =>
    rw [hR, Point.ofAffine_some] at hpoint
    by_cases hnonce : (nonce : ZMod n) = 0
    · rw [if_pos hnonce] at hinverse
      unfold signWith? at h
      rw [hpoint, hinverse] at h
      simp [Point.affine, bind, Except.bind, pure, Except.pure] at h
    · rw [if_neg hnonce] at hinverse
      obtain ⟨s, hs⟩ : ∃ s, (z + x.val % n * key.secret) * (nonce : ZMod n)⁻¹.val % n = s :=
        ⟨_, rfl⟩
      have hlt : s < n := hs ▸ Nat.mod_lt _ (by decide)
      have hmul : (s * nonce : ZMod n) = z + (x.val % n : ℕ) * key.secret := by
        rw [← hs, ZMod.natCast_mod]
        push_cast
        rw [ZMod.natCast_zmod_val, mul_assoc, inv_mul_cancel₀ hnonce, mul_one]
      have hr : (FieldElement.ofZMod x).num % n = x.val % n := rfl
      rw [signWith?_of_point key z hpoint hinverse hr hs] at h
      split at h
      · simp at h
      · obtain ⟨sig', hcomponents, heq⟩ := map_eq_ok_iff.mp h
        rw [Option.some.injEq] at heq
        subst heq
        obtain ⟨hr', hs'⟩ := Signature.ofComponents_eq_ok_iff.mp hcomponents
        rw [hr', hs', ← hmul]
        refine ⟨rfl, lowS_le s, ?_⟩
        rcases natCast_lowS hlt with hsame | hneg
        · left
          rw [hsame]
        · right
          rw [hneg, neg_mul]

/-- What a nonce yields verifies under the key. -/
theorem verifies_of_signWith? {key : PrivateKey} {z nonce : ℕ} {sig : Signature}
    (h : key.signWith? z nonce = .ok (some sig)) : sig.verifies z key.point = true := by
  obtain ⟨habscissa, -, heq⟩ := signWith?_eq_some h
  rw [point_eq_ofAffine, Signature.verifies_ofAffine_iff sig z key.secret_nsmul_ne_zero,
    ← habscissa, Signature.nonceSum, ← mul_nsmul', ← add_nsmul]
  have hcast : (((z / sig.s : ZMod n).val + (sig.r / sig.s : ZMod n).val * key.secret : ℕ) : ZMod n)
      * sig.s = z + sig.r * key.secret := by
    push_cast
    rw [ZMod.natCast_zmod_val, ZMod.natCast_zmod_val]
    field_simp [sig.s_ne_zero]
  rcases heq with heq | heq
  · congr 1
    rw [Secp256k1.nsmul_basePoint_eq_iff]
    apply mul_right_cancel₀ sig.s_ne_zero
    rw [hcast, ← heq, mul_comm]
  · rw [← Secp256k1.abscissa?_neg (nonce • basePoint)]
    congr 1
    rw [Secp256k1.nsmul_basePoint_eq_neg_iff]
    apply mul_right_cancel₀ sig.s_ne_zero
    rw [hcast, neg_mul, mul_comm (nonce : ZMod n), heq, neg_neg]

/-- A signature is what one of the nonces yields. -/
theorem exists_signWith?_of_signFrom {key : PrivateKey} {z bound : ℕ} {state : Nonce.State}
    {sig : Signature} (h : key.signFrom z bound state = .ok sig) :
    ∃ nonce, Nonce.usable nonce = true ∧ key.signWith? z nonce = .ok (some sig) := by
  induction bound generalizing state with
  | zero => simp [signFrom] at h
  | succ bound ih =>
    unfold signFrom at h
    split at h
    · simp at h
    · next nonce next hnext =>
      obtain ⟨result, hsign, h⟩ := bind_eq_ok_iff.mp h
      cases result with
      | none => exact ih h
      | some sig' =>
        simp only [pure, Except.pure, Except.ok.injEq] at h
        subst h
        exact ⟨nonce, Nonce.usable_of_next? hnext, hsign⟩

/-- A signature is what some nonce in the range yields. -/
theorem exists_signWith?_of_sign {key : PrivateKey} {z : ℕ} {sig : Signature}
    (h : key.sign z = .ok sig) :
    ∃ nonce, Nonce.usable nonce = true ∧ key.signWith? z nonce = .ok (some sig) := by
  obtain ⟨state, -, hfrom⟩ := bind_eq_ok_iff.mp h
  exact exists_signWith?_of_signFrom hfrom

theorem sign_of_nonce {key : PrivateKey} {z nonce : ℕ} {state next : Nonce.State}
    {sig : Signature} (hstart : Nonce.start key.secret z = .ok state)
    (hnext : Nonce.next? state = some (nonce, next))
    (hsign : key.signWith? z nonce = .ok (some sig)) : key.sign z = .ok sig := by
  unfold sign
  rw [hstart, ok_bind, Nonce.searchBound, signFrom, hnext]
  simp only [hsign, ok_bind]
  rfl

/-- A key makes a signature of a hash if its first nonce gives two components other than zero. Each
condition can be computed. -/
theorem exists_sign_of_isMultiple {key : PrivateKey} {secret z : ℕ} (hkey : key.secret = secret)
    (hz : z ≤ n) (nonce : ℕ) (x y : ZMod Secp256k1.p)
    (hdraw : (Nonce.State.seed (.ofNatBE 32 secret) (.ofNatBE 32 z)).draw.1 = nonce)
    (hnonce : Nonce.usable nonce = true) (hcurve : y * y = x * x * x + 0 * x + 7)
    (hmultiple :
      Jacobian.isMultiple Secp256k1.generatorX Secp256k1.generatorY nonce x y = true)
    (hr : x.val % n ≠ 0) (hs : (z + x.val % n * secret) % n ≠ 0) :
    ∃ sig, key.sign z = .ok sig := by
  subst hkey
  have hreduced : (if n < z then z - n else z) = z := if_neg (Nat.not_lt.mpr hz)
  have hsecret : key.secret < 256 ^ 32 := key.secret_lt.trans (by decide)
  have hstart := Nonce.start_eq hsecret (hreduced.trans_lt (hz.trans_lt (by decide)))
  rw [hreduced] at hstart
  have hunit : (nonce : ZMod n) ≠ 0 := by
    simp only [Nonce.usable, Bool.and_eq_true, decide_eq_true_eq] at hnonce
    rw [ne_eq, ZMod.natCast_eq_zero_iff]
    exact Nat.not_dvd_of_pos_of_lt hnonce.1 hnonce.2
  have hinverse := FieldElement.inverseMod?_eq (m := n) nonce
  rw [if_neg hunit] at hinverse
  have hne : ¬ (x.val % n = 0 ∨
      (z + x.val % n * key.secret) * (nonce : ZMod n)⁻¹.val % n = 0) := by
    rintro (hzero | hzero)
    · exact hr hzero
    · rcases (Fact.out : n.Prime).dvd_mul.mp (Nat.dvd_of_mod_eq_zero hzero) with hsum | hinv
      · exact hs (Nat.mod_eq_zero_of_dvd hsum)
      · rw [← ZMod.natCast_eq_zero_iff, ZMod.natCast_zmod_val] at hinv
        exact inv_ne_zero hunit hinv
  have hnum : (FieldElement.ofZMod x).num % n = x.val % n := rfl
  have hsign := key.signWith?_of_point z
    (Secp256k1.mulGenerator_of_isMultiple hcurve hmultiple) hinverse hnum rfl
  obtain ⟨sig, hsig⟩ := exists_ofComponents_lowS (Nat.mod_lt _ (by decide))
    (Nat.mod_lt _ (by decide)) hne
  rw [if_neg hne, hsig] at hsign
  exact ⟨sig, sign_of_nonce hstart (Nonce.next?_of_draw hdraw hnonce) hsign⟩

/-! ## The only failure -/

/-- A nonce may yield no signature, but it is never refused. -/
theorem exists_signWith? (key : PrivateKey) (z nonce : ℕ) :
    ∃ result, key.signWith? z nonce = .ok result := by
  have hpoint := Secp256k1.mulGenerator_eq nonce
  cases hR : nonce • basePoint with
  | zero =>
    refine ⟨none, ?_⟩
    unfold signWith?
    rw [hpoint, hR]
    rfl
  | some x y hxy =>
    rw [hR, Point.ofAffine_some] at hpoint
    cases hinverse : Modular.inverseMod? nonce n with
    | none =>
      refine ⟨none, ?_⟩
      unfold signWith?
      rw [hpoint, hinverse]
      rfl
    | some inverse =>
      have hsign := key.signWith?_of_point z hpoint hinverse rfl rfl
      split at hsign
      · exact ⟨none, hsign⟩
      · next hne =>
        obtain ⟨sig, hsig⟩ := exists_ofComponents_lowS (Nat.mod_lt _ (by decide))
          (Nat.mod_lt _ (by decide)) hne
        rw [hsig] at hsign
        exact ⟨some sig, hsign⟩

theorem eq_of_signFrom_eq_error {key : PrivateKey} {z bound : ℕ} {state : Nonce.State} {e : Error}
    (h : key.signFrom z bound state = .error e) : e = .nonceSearchExhausted := by
  induction bound generalizing state with
  | zero => exact (Except.error.inj h).symm
  | succ bound ih =>
    unfold signFrom at h
    split at h
    · exact (Except.error.inj h).symm
    · next nonce next hnext =>
      obtain ⟨result, hresult⟩ := key.exists_signWith? z nonce
      rw [hresult, ok_bind] at h
      cases result with
      | none => exact ih h
      | some sig => simp [pure, Except.pure] at h

/-- For a hash of 32 bytes, signing does not fail but for the lack of a nonce. -/
theorem eq_of_sign_eq_error {key : PrivateKey} {z : ℕ} {e : Error} (hz : z < 256 ^ 32)
    (h : key.sign z = .error e) : e = .nonceSearchExhausted := by
  have hsecret : key.secret < 256 ^ 32 := key.secret_lt.trans (by decide)
  have hreduced : (if n < z then z - n else z) < 256 ^ 32 := by
    split <;> omega
  unfold sign at h
  rw [Nonce.start_eq hsecret hreduced, ok_bind] at h
  exact eq_of_signFrom_eq_error h

/-- Every signature that a key makes has both components in range, the second one in its lower
half, and verifies under the key. -/
theorem sign_low_and_verifies {key : PrivateKey} {z : ℕ} {sig : Signature}
    (h : key.sign z = .ok sig) :
    (1 ≤ sig.r ∧ sig.r ≤ n - 1) ∧ (1 ≤ sig.s ∧ sig.s ≤ (n - 1) / 2) ∧
      sig.verifies z key.point = true := by
  obtain ⟨nonce, -, hnonce⟩ := exists_signWith?_of_sign h
  have hlow : sig.s ≤ n / 2 := (signWith?_eq_some hnonce).2.1
  have hhalf : (n - 1) / 2 = n / 2 := by decide
  refine ⟨⟨sig.r_pos, Nat.le_sub_one_of_lt sig.r_lt⟩, ⟨sig.s_pos, ?_⟩,
    verifies_of_signWith? hnonce⟩
  rw [hhalf]
  exact hlow

/-! The key with the secret 2 signs the hash `n`, which is zero modulo `n`. -/

theorem exists_sign_two_order {key : PrivateKey} (h : key.secret = 2) :
    ∃ sig, key.sign n = .ok sig :=
  exists_sign_of_isMultiple h le_rfl
    0x520c0030cc8a7d62861c933287cf4eceb12df7c9f2733e5185c6602f69880894
    0xd08d92dc4c06665726138b5f12d74330a9b69e149a43ebb2c574b7b38b0755c4
    0xc19951e08afa774be5d7aa6413a9b424759d01574a823cda9ae5fbdad3129a13
    (by decide +kernel) (by decide) (by decide +kernel) (by decide +kernel) (by decide +kernel)
    (by decide +kernel)

/-- The second component, which lies in the upper half at first, is replaced by its negative. -/
theorem sign_two_order_low_and_verifies :
    ∃ key sig, ofSecret 2 = .ok key ∧ key.sign n = .ok sig ∧
      (1 ≤ sig.r ∧ sig.r ≤ n - 1) ∧ (1 ≤ sig.s ∧ sig.s ≤ (n - 1) / 2) ∧
        sig.verifies n key.point = true := by
  obtain ⟨key, hkey, hsecret⟩ := exists_ofSecret (show 0 < 2 by decide) (by decide)
  obtain ⟨sig, hsig⟩ := exists_sign_two_order hsecret
  exact ⟨key, sig, hkey, hsig, sign_low_and_verifies hsig⟩

end PrivateKey

end CoinSpend
