import CoinSpend.Proofs.Curve.Sec
import CoinSpend.Proofs.Ecdsa.Der
import CoinSpend.Proofs.Transaction.PayToKeyHash
import CoinSpend.Proofs.Transaction.SigHash
import CoinSpend.Transaction.Sign
import Mathlib

/-!
# Signing what is paid to a key hash

A signed input pushes a signature in its DER form and a public key in its compressed form. Both are
read back as what was written, and neither takes part in the hash that is signed. So the signed
input spends exactly what is paid to the hash of that key.

Results:
* `PrivateKey.exists_sec`: the public key of a private key is read back.
* `Transaction.exists_setUnlocking`: what an unlocking script changes, and what it does not.
* `Transaction.ownerSigned_iff`: what a key's own signature proves.
* `Transaction.signInput_payToKeyHash`: who can sign an input.
-/

namespace CoinSpend

open Secp256k1 (basePoint)

/-- The public key of a private key has a compressed form, which is read back. -/
theorem PrivateKey.exists_sec (key : PrivateKey) :
    ∃ sec, key.sec true = .ok sec ∧ sec.length = 33 ∧ Point.ofSec sec = .ok key.point := by
  have hne := key.secret_nsmul_ne_zero
  unfold PrivateKey.sec
  rw [key.point_eq_ofAffine]
  cases hP : key.secret • basePoint with
  | zero => exact absurd hP hne
  | some x y h =>
    refine ⟨_, Point.toSec_ofAffine_some h, ?_, Point.ofSec_compressed h⟩
    rw [Point.compressed, List.length_cons, Bytes.length_ofNatBE]

namespace Transaction

variable {tx : Transaction} {index : ℕ} {fetch : Fetcher} {input : Input} {output : Output}
  {hash : FixedBytes 20}

/-! ## Another unlocking script -/

/-- A replaced unlocking script is that of the input. The spends stay the same, and no other script
is replaced. -/
theorem exists_setUnlocking (hinput : tx.input index = .ok input) (script : Script) :
    ∃ signed, tx.setUnlocking index script = .ok signed ∧
      signed.input index = .ok { input with unlocking := script } ∧ tx.SameSpend signed ∧
      signed.testnet = tx.testnet ∧ ∀ s ∈ signed.scripts, s = script ∨ s ∈ tx.scripts := by
  have hget := input_eq_ok_iff.mp hinput
  obtain ⟨hindex, hvalue⟩ := List.getElem?_eq_some_iff.mp hget
  have hset : tx.setUnlocking index script =
      .ok { tx with inputs := tx.inputs.set index { input with unlocking := script } } := by
    unfold setUnlocking
    rw [hinput]
    rfl
  refine ⟨_, hset, ?_, ⟨rfl, ?_, rfl, rfl⟩, rfl, ?_⟩
  · rw [input_eq_ok_iff, List.getElem?_set_self hindex]
  · rw [List.forall₂_iff_get]
    refine ⟨by simp, ?_⟩
    intro i hi hi'
    simp only [List.get_eq_getElem, List.getElem_set]
    split
    · next heq =>
      subst heq
      rw [hvalue]
      exact ⟨rfl, rfl, rfl⟩
    · exact ⟨rfl, rfl, rfl⟩
  · intro s hs
    unfold scripts at hs ⊢
    rw [List.mem_append, List.mem_map] at hs ⊢
    rcases hs with ⟨changed, hchanged, rfl⟩ | hs
    · rcases List.mem_or_eq_of_mem_set hchanged with hmem | rfl
      · exact .inr (.inl ⟨changed, hmem, rfl⟩)
      · exact .inl rfl
    · exact .inr (.inr hs)

theorem writable_of_mem_outputs (hencode : ∃ bytes, tx.encode = .ok bytes) :
    ∀ output ∈ tx.outputs, ∀ i ∈ output.locking, i.Writable := by
  intro output houtput
  exact exists_encode_iff.mp hencode output.locking
    (List.mem_append_right _ (List.mem_map_of_mem houtput))

/-- There is a hash to sign for an input of a transaction that can be written, if what it spends is
paid to a key hash. -/
theorem exists_sigHash_of_encode (hencode : ∃ bytes, tx.encode = .ok bytes)
    (hinput : tx.input index = .ok input) (hspent : input.spent fetch tx.testnet = .ok output)
    (hlocking : output.locking = Script.payToKeyHash hash) :
    ∃ z, tx.sigHash index none fetch = .ok z := by
  have hcode : ∀ i ∈ output.locking, i.Writable := by
    intro i hi
    rw [hlocking] at hi
    simp only [Script.payToKeyHash, List.mem_cons, List.not_mem_nil, or_false] at hi
    rcases hi with rfl | rfl | rfl | rfl | rfl
    · rfl
    · rfl
    · exact hash.property.trans_le (by decide)
    · rfl
    · rfl
  exact exists_sigHash_none hinput hspent hcode (writable_of_mem_outputs hencode)

/-! ## What the signer proves -/

/-- The bytes that a signature is pushed as. -/
def signatureElement (sig : Signature) : Bytes := sig.toDer ++ [UInt8.ofNat sigHashAll.toNat]

theorem signatureElement_ne_nil (sig : Signature) : signatureElement sig ≠ [] := by
  simp [signatureElement]

theorem ofDer_dropLast_signatureElement (sig : Signature) :
    Signature.ofDer (signatureElement sig).dropLast = .ok sig := by
  rw [signatureElement, List.dropLast_concat]
  exact sig.ofDer_toDer

theorem length_signatureElement_le (sig : Signature) :
    (signatureElement sig).length ≤ Stack.elementLimit := by
  have hder := sig.length_toDer_le
  rw [signatureElement, List.length_append, List.length_singleton, Stack.elementLimit]
  omega

/-- A key's own signature proves ownership of what is paid to the hash of its public key, and of
nothing else. -/
theorem ownerSigned_iff {key : PrivateKey} {z : ℕ} {sig : Signature} {sec : Bytes}
    (hsign : key.sign z = .ok sig) (hsec : Point.ofSec sec = .ok key.point) :
    OwnerSigned z hash sec (signatureElement sig) ↔ Hash.hash160 sec = hash := by
  constructor
  · rintro ⟨hhash, -⟩
    exact hhash
  · intro hhash
    obtain ⟨nonce, -, hnonce⟩ := PrivateKey.exists_signWith?_of_sign hsign
    exact ⟨hhash, key.point, sig, hsec, signatureElement_ne_nil sig,
      ofDer_dropLast_signatureElement sig, PrivateKey.verifies_of_signWith? hnonce⟩

/-- An input that pushes a signature and a public key is checked without an error, and it may spend
what is paid to a key hash if they are by the owner. -/
theorem verifyInput_of_pushes {z : ℕ} {sig sec : Bytes} (hinput : tx.input index = .ok input)
    (hspent : input.spent fetch tx.testnet = .ok output)
    (hlocking : output.locking = Script.payToKeyHash hash)
    (hz : tx.sigHash index none fetch = .ok z)
    (hunlocking : input.unlocking = [.push sig, .push sec])
    (hsig : sig.length ≤ Stack.elementLimit) (hsec : sec.length ≤ Stack.elementLimit) :
    ∃ accepted, (tx.verifyInput index fetch).map (·.value) = .ok accepted ∧
      (accepted = true ↔ OwnerSigned z hash sec sig) := by
  have hpushes : input.unlocking.exec ⟨z, tx.version, tx.locktime, input.sequence⟩ Stack.empty =
      .ok ⟨[sec, sig], []⟩ := by
    rw [hunlocking]
    exact Script.exec_two_pushes hsig hsec
  refine ⟨(tx.runInput input (Script.payToKeyHash hash) z).value, ?_, ?_⟩
  · rw [verifyInput_eq_map hinput hspent hlocking, hz]
    rfl
  · rw [runInput, Script.evaluate_append_payToKeyHash_iff]
    constructor
    · rintro ⟨sec', sig', rest, alt, hexec, -, hsigned⟩
      cases hpushes.symm.trans hexec
      exact hsigned
    · intro hsigned
      exact ⟨sec, sig, [], [], hpushes, by simp [Stack.size, Stack.sizeLimit], hsigned⟩

/-! ## Signing -/

theorem withSignature_eq {key : PrivateKey} {z : ℕ} {sig : Signature} {sec : Bytes}
    (hz : tx.sigHash index none fetch = .ok z) (hsign : key.sign z = .ok sig)
    (hsec : key.sec true = .ok sec) :
    tx.withSignature index key fetch =
      tx.setUnlocking index [.push (signatureElement sig), .push sec] := by
  unfold withSignature unlockingScript
  rw [hz, ok_bind, hsign, ok_bind, hsec]
  rfl

/-- A transaction that cannot be signed for lack of a nonce stays as it is. -/
theorem signInput_eq_of_sign_eq_error {key : PrivateKey} {z : ℕ} {e : Error}
    (hz : tx.sigHash index none fetch = .ok z) (hsign : key.sign z = .error e) :
    tx.signInput index key fetch = (tx, .error e) := by
  have herror : tx.withSignature index key fetch = .error e := by
    unfold withSignature unlockingScript
    rw [hz, ok_bind, hsign]
    rfl
  unfold signInput
  rw [herror]

theorem signInput_of_withSignature {signed : Transaction} {key : PrivateKey}
    (h : tx.withSignature index key fetch = .ok signed) :
    (tx.signInput index key fetch).1 = signed ∧
      (tx.signInput index key fetch).2.map (·.value) =
        (signed.verifyInput index fetch).map (·.value) := by
  unfold signInput
  rw [h]
  refine ⟨rfl, ?_⟩
  simp only
  cases signed.verifyInput index fetch with
  | error e => rfl
  | ok outcome =>
    obtain ⟨log, value⟩ := outcome
    cases value <;> rfl

/-- With a signature at hand, signing an input of what is paid to a key hash tells whether the hash
is that of the compressed public key. The transaction afterwards gives the same answer, and it can
be written if the one before can. -/
theorem signInput_of_sign {key : PrivateKey} {z : ℕ} {sig : Signature}
    (hinput : tx.input index = .ok input) (hspent : input.spent fetch tx.testnet = .ok output)
    (hlocking : output.locking = Script.payToKeyHash hash)
    (hz : tx.sigHash index none fetch = .ok z) (hsign : key.sign z = .ok sig) :
    ∃ signed sec, key.sec true = .ok sec ∧ (tx.signInput index key fetch).1 = signed ∧
      (tx.signInput index key fetch).2.map (·.value) =
        .ok (decide (Hash.hash160 sec = hash)) ∧
      (signed.verifyInput index fetch).map (·.value) = .ok (decide (Hash.hash160 sec = hash)) ∧
      signed.testnet = tx.testnet ∧
      ((∃ bytes, tx.encode = .ok bytes) → ∃ bytes, signed.encode = .ok bytes) := by
  obtain ⟨sec, hsec, hlength, hread⟩ := key.exists_sec
  have hsecLimit : sec.length ≤ Stack.elementLimit := hlength.trans_le (by decide)
  have hsigLimit := length_signatureElement_le sig
  obtain ⟨signed, hset, hsigned, hsame, htestnet, hscripts⟩ :=
    exists_setUnlocking hinput [.push (signatureElement sig), .push sec]
  obtain ⟨htx, hresult⟩ :=
    signInput_of_withSignature ((withSignature_eq hz hsign hsec).trans hset)
  have hspent' : ({ input with unlocking := [.push (signatureElement sig), .push sec] } :
      Input).spent fetch signed.testnet = .ok output := by
    rw [htestnet]
    exact hspent
  have hz' : signed.sigHash index none fetch = .ok z :=
    (hsame.sigHash_eq htestnet.symm index none fetch).symm.trans hz
  obtain ⟨accepted, haccepted, hiff⟩ :=
    verifyInput_of_pushes hsigned hspent' hlocking hz' rfl hsigLimit hsecLimit
  have hdecide : accepted = decide (Hash.hash160 sec = hash) := by
    rw [Bool.eq_iff_iff, hiff, ownerSigned_iff hsign hread, decide_eq_true_eq]
  rw [hdecide] at haccepted
  refine ⟨signed, sec, hsec, htx, hresult.trans haccepted, haccepted, htestnet, ?_⟩
  intro hencode
  rw [exists_encode_iff] at hencode ⊢
  intro script hscript
  rcases hscripts script hscript with rfl | hmem
  · rw [List.forall_mem_cons, List.forall_mem_singleton]
    exact ⟨hsigLimit, hsecLimit⟩
  · exact hencode script hmem

/-- Signing an input of what is paid to a key hash, unless it ends for lack of a nonce, tells
whether the hash is that of the compressed public key. If it is, then the input may spend its output
in the transaction afterwards, also after that has been written and read back. Byte strings in
memory are shorter than `2 ^ 64`. -/
theorem signInput_payToKeyHash {key : PrivateKey} (hencode : ∃ bytes, tx.encode = .ok bytes)
    (hinput : tx.input index = .ok input) (hspent : input.spent fetch tx.testnet = .ok output)
    (hlocking : output.locking = Script.payToKeyHash hash)
    (hreturns : (tx.signInput index key fetch).2 ≠ .error .nonceSearchExhausted) :
    ∃ sec, key.sec true = .ok sec ∧
      (tx.signInput index key fetch).2.map (·.value) = .ok (decide (Hash.hash160 sec = hash)) ∧
      (Hash.hash160 sec = hash →
        ((tx.signInput index key fetch).1.verifyInput index fetch).map (·.value) = .ok true ∧
        ∃ bytes, (tx.signInput index key fetch).1.encode = .ok bytes ∧
          (bytes.length < 2 ^ 64 → ∃ reread, decode bytes tx.testnet = .ok reread ∧
            (reread.verifyInput index fetch).map (·.value) = .ok true)) := by
  obtain ⟨z, hz⟩ := exists_sigHash_of_encode hencode hinput hspent hlocking
  cases hsign : key.sign z with
  | error e =>
    have he : e = .nonceSearchExhausted := PrivateKey.eq_of_sign_eq_error (sigHash_lt hz) hsign
    rw [signInput_eq_of_sign_eq_error hz hsign, he] at hreturns
    exact absurd rfl hreturns
  | ok sig =>
    obtain ⟨signed, sec, hsec, htx, hresult, hverify, htestnet, hwrite⟩ :=
      signInput_of_sign hinput hspent hlocking hz hsign
    obtain ⟨bytes, hbytes⟩ := hwrite hencode
    refine ⟨sec, hsec, hresult, ?_⟩
    intro hhash
    rw [decide_eq_true hhash] at hverify
    rw [htx]
    refine ⟨hverify, bytes, hbytes, ?_⟩
    intro hbound
    exact ⟨signed, htestnet ▸ decode_of_encode hbytes hbound, hverify⟩

/-! The owner of the secret 1 signs a spend anew. -/

theorem exists_sign_fromGenerator {key : PrivateKey} (h : key.secret = 1) :
    ∃ sig, key.sign fromGeneratorHash = .ok sig :=
  PrivateKey.exists_sign_of_isMultiple h (by decide)
    0x4aa07e0f37f7c889c073bd4d1b8f542598bfa1d0d6ad29606fe49ab6bae2b0e7
    0x30a8c85db3865f7311b066616153c858b2e90af4ad1b17db698e2ee96d196494
    0x30462887d7955624529f2e925d52905230e8bf04e3a834f7a7b4ab27ff084037
    (by decide +kernel) (by decide) (by decide +kernel) (by decide +kernel) (by decide +kernel)
    (by decide +kernel)

theorem signInput_fromGenerator :
    ∃ key, PrivateKey.ofSecret 1 = .ok key ∧
      (∃ bytes, fromGenerator.encode = .ok bytes) ∧
      (fromGenerator.signInput 0 key fun _ _ => .ok toGenerator).2 ≠
        .error .nonceSearchExhausted ∧
      (fromGenerator.signInput 0 key fun _ _ => .ok toGenerator).2.map (·.value) = .ok true ∧
      ((fromGenerator.signInput 0 key fun _ _ => .ok toGenerator).1.verifyInput 0
        fun _ _ => .ok toGenerator).map (·.value) = .ok true := by
  obtain ⟨key, hkey, hsecret⟩ := PrivateKey.exists_ofSecret Nat.one_pos (by decide)
  have hgenerator : key.sec true = .ok generatorSec := by
    rw [PrivateKey.sec, PrivateKey.point_eq_generator hsecret]
    exact eq_ok_of_toOption (by decide +kernel)
  have hsize : fromGenerator.encode.toOption.map List.length = some 157 := by decide +kernel
  obtain ⟨bytes, hbytes, -⟩ := exists_ok_of_length_toOption hsize
  obtain ⟨sig, hsign⟩ := exists_sign_fromGenerator hsecret
  have hlocking : (⟨1, Script.payToKeyHash (Hash.hash160 generatorSec)⟩ : Output).locking =
      Script.payToKeyHash (Hash.hash160 generatorSec) := rfl
  have hreturns : (fromGenerator.signInput 0 key fun _ _ => .ok toGenerator).2 ≠
      .error .nonceSearchExhausted := by
    obtain ⟨signed, sec, -, -, hresult, -⟩ :=
      signInput_of_sign rfl rfl hlocking sigHash_fromGenerator hsign
    intro herror
    rw [herror] at hresult
    cases hresult
  obtain ⟨sec, hsec, hresult, hverify⟩ :=
    signInput_payToKeyHash ⟨bytes, hbytes⟩ rfl rfl hlocking hreturns
  obtain rfl : generatorSec = sec := Except.ok.inj (hgenerator.symm.trans hsec)
  rw [decide_eq_true rfl] at hresult
  exact ⟨key, hkey, ⟨bytes, hbytes⟩, hreturns, hresult, (hverify rfl).1⟩

end Transaction

end CoinSpend
