import CoinSpend.Proofs.Script.Multisig
import CoinSpend.Proofs.Transaction.PayToScriptHash
import CoinSpend.Proofs.Transaction.RedeemRule
import CoinSpend.Proofs.Transaction.Sign
import Mathlib

/-!
# Spending what several owners hold

A redeem script names the public keys of the owners and how many of them have to sign. With up to 15
compressed keys it is short enough to be pushed. The signatures are by owners in the order of their
keys, so the check matches them, also where two owners have the same key.

Results:
* `Script.exists_encode_multisig`: the redeem script is written in `34 · n + 3` bytes.
* `Operation.areSigned_signatureElement`: the owners' own signatures match their keys.
* `Transaction.verifyInput_multisig`: enough owners can spend what is paid to the redeem script.
-/

namespace CoinSpend

/-! ## The redeem script -/

namespace Script

theorem encodeInstruction_number {value : ℕ} (hpos : 1 ≤ value) (hle : value ≤ 16) :
    encodeInstruction (.op (Opcode.number value)) = .ok [Opcode.number value] := by
  interval_cases value <;> rfl

/-- With 1 to 15 compressed keys the redeem script can be written and pushed. -/
theorem exists_encode_multisig {required : ℕ} {secs : List Bytes}
    (hsecs : ∀ sec ∈ secs, sec.length = 33) (hpos : 1 ≤ required) (hle : required ≤ secs.length)
    (hlimit : secs.length ≤ 15) :
    ∃ raw, (multisig required secs).encode = .ok raw ∧ raw.length = 34 * secs.length + 3 := by
  have hkeys : List.Forall₂ (fun i piece => encodeInstruction i = .ok piece)
      (secs.map .push) (secs.map (33 :: ·)) := by
    rw [List.forall₂_map_left_iff, List.forall₂_map_right_iff, List.forall₂_same]
    intro sec hsec
    rw [encodeInstruction, hsecs sec hsec]
    rfl
  have htail : List.Forall₂ (fun i piece => encodeInstruction i = .ok piece)
      [.op (Opcode.number secs.length), .op Opcode.checkMultisig]
      [[Opcode.number secs.length], [Opcode.checkMultisig]] :=
    .cons (encodeInstruction_number (hpos.trans hle) (by omega)) (.cons rfl .nil)
  have hlength : (secs.map (33 :: ·)).flatten.length = 34 * secs.length := by
    have hpieces : (secs.map (33 :: ·)).map List.length = secs.map fun _ => 34 := by
      rw [List.map_map]
      exact List.map_congr_left fun sec hsec => congrArg Nat.succ (hsecs sec hsec)
    rw [List.length_flatten, hpieces, List.map_const', List.sum_replicate, smul_eq_mul, mul_comm]
  refine ⟨_, encode_eq_ok_iff.mpr ⟨_, .cons (encodeInstruction_number hpos (by omega))
    (List.rel_append hkeys htail), rfl⟩, ?_⟩
  rw [List.flatten_cons, List.flatten_append, List.length_append, List.length_append, hlength]
  simp only [List.length_cons, List.length_nil, List.flatten_cons, List.flatten_nil,
    List.length_append]
  omega

theorem writable_of_encode {script : Script} {bytes : Bytes} (h : script.encode = .ok bytes) :
    ∀ i ∈ script, i.Writable := exists_encode_iff.mp ⟨bytes, h⟩

end Script

namespace Transaction

/-! ## The owners' signatures -/

/-- Signatures by some of the owners match the keys of all of them. -/
theorem areSigned_signatureElement {z : ℕ} {keys owners : List PrivateKey} {secs : List Bytes}
    {sigs : List Signature} (hsecs : keys.mapM (·.sec true) = .ok secs)
    (howners : owners.Sublist keys)
    (hsigs : List.Forall₂ (fun owner sig => PrivateKey.sign owner z = .ok sig) owners sigs) :
    Operation.areSigned z secs (sigs.map signatureElement) = true := by
  rw [Operation.areSigned_iff]
  refine ⟨keys.map (·.point), sigs, owners.map (·.point), ?_, ?_, howners.map _, ?_⟩
  · rw [List.forall₂_map_right_iff]
    refine (mapM_eq_ok_iff.mp hsecs).flip.imp ?_
    intro sec key hsec
    obtain ⟨sec', hsec', -, hread⟩ := key.exists_sec
    rw [Except.ok.inj (hsec.symm.trans hsec')]
    exact hread
  · rw [List.forall₂_map_left_iff, List.forall₂_same]
    exact fun sig _ => ⟨signatureElement_ne_nil sig, ofDer_dropLast_signatureElement sig⟩
  · rw [List.forall₂_map_right_iff]
    refine hsigs.flip.imp ?_
    intro sig owner hsign
    obtain ⟨nonce, -, hnonce⟩ := PrivateKey.exists_signWith?_of_sign hsign
    exact PrivateKey.verifies_of_signWith? hnonce

/-! ## The spend -/

/-- The instructions that push the signatures, on top of the further element that the check takes.
-/
def signaturePushes (sigs : List Signature) : Script :=
  .op 0x00 :: (sigs.map signatureElement).map .push

theorem exec_signaturePushes {ctx : Context} {sigs : List Signature}
    (hroom : sigs.length < Stack.sizeLimit) :
    (signaturePushes sigs).exec ctx Stack.empty =
      .ok ⟨(sigs.map signatureElement).reverse ++ [[]], []⟩ := by
  have hplain : ∀ i ∈ (sigs.map signatureElement).map Instruction.push, i.isPlain = true := by
    intro i hi
    obtain ⟨element, -, rfl⟩ := List.mem_map.mp hi
    rfl
  have helements : ∀ element ∈ sigs.map signatureElement,
      element.length ≤ Stack.elementLimit := by
    intro element helement
    obtain ⟨sig, -, rfl⟩ := List.mem_map.mp helement
    exact length_signatureElement_le sig
  have hsize : Stack.size ⟨[[]], []⟩ + (sigs.map signatureElement).length ≤ Stack.sizeLimit := by
    simp only [Stack.size, List.length_map, List.length_cons, List.length_nil]
    omega
  have happend : Script.exec ctx (signaturePushes sigs) Stack.empty = _ :=
    Script.exec_append (Branches.endsNone_of_plain hplain) [.op 0x00] Stack.empty
  have hpushes : Script.exec ctx ((sigs.map signatureElement).map .push ++ []) ⟨[[]], []⟩ = _ :=
    Script.exec_pushes_append [] helements hsize
  rw [List.append_nil, Script.exec_nil] at hpushes
  rw [happend, exec_zero, ok_bind, hpushes]

variable {tx : Transaction} {index : ℕ} {fetch : Fetcher} {input : Input} {output : Output}

/-- An input that pushes matching signatures and the redeem script is accepted. -/
theorem verifyInput_of_areSigned {secs : List Bytes} {sigs : List Signature} {raw : Bytes} {z : ℕ}
    (hinput : tx.input index = .ok input) (hspent : input.spent fetch tx.testnet = .ok output)
    (hlocking : output.locking = Script.payToScriptHash (Hash.hash160 raw))
    (hunlocking : input.unlocking = signaturePushes sigs ++ [.push raw])
    (hraw : (Script.multisig sigs.length secs).encode = .ok raw) (hlength : raw.length ≤ 520)
    (hz : tx.sigHash index (some (Script.multisig sigs.length secs)) fetch = .ok z)
    (hsecs : ∀ sec ∈ secs, sec.length = 33) (hpos : 1 ≤ sigs.length)
    (hle : sigs.length ≤ secs.length) (hlimit : secs.length ≤ 15)
    (hsigned : Operation.areSigned z secs (sigs.map signatureElement) = true) :
    (tx.verifyInput index fetch).map (·.value) = .ok true := by
  have hroom : sigs.length < Stack.sizeLimit := by
    rw [Stack.sizeLimit]
    omega
  have hpushes : (signaturePushes sigs).exec ⟨z, tx.version, tx.locktime, input.sequence⟩
      Stack.empty = _ := exec_signaturePushes hroom
  have hcheck : (Script.multisig sigs.length secs).exec
      ⟨z, tx.version, tx.locktime, input.sequence⟩
      ⟨(sigs.map signatureElement).reverse ++ [[]], []⟩ = .ok ⟨[ScriptNumber.ofBool true], []⟩ := by
    have hcount : (sigs.map signatureElement).length = sigs.length := List.length_map _
    rw [← hsigned, ← hcount]
    refine Script.exec_multisig (fun sec hsec => (hsecs sec hsec).trans_le (by decide)) ?_ ?_ ?_ ?_
    · rwa [hcount]
    · rwa [hcount]
    · omega
    · simp only [Stack.size, Stack.sizeLimit, List.length_append, List.length_reverse,
        List.length_map, List.length_cons, List.length_nil]
      omega
  rw [← Script.runFrom_value] at hpushes hcheck
  rw [verifyInput_of_scriptHash?_eq_some hinput hspent
    (Script.scriptHash?_eq_some_iff.mpr hlocking), Script.redeemScript?_eq_some_iff.mpr
    ⟨signaturePushes sigs, raw, hunlocking, Script.decode_of_encode hraw⟩]
  refine map_eq_ok_iff.mpr ⟨z, hz, ?_⟩
  rw [runInput, hunlocking, hlocking, Script.evaluate_append_payToScriptHash_iff]
  exact ⟨Script.multisig sigs.length secs, _, ScriptNumber.ofBool true, [], [],
    ⟨hlength, rfl, Script.decode_of_encode hraw⟩, hpushes, hcheck,
    ScriptNumber.ofBool_ne_nil_iff.mpr rfl⟩

/-- Every key has a compressed form of 33 bytes. -/
theorem exists_secs (keys : List PrivateKey) :
    ∃ secs, keys.mapM (·.sec true) = .ok secs ∧ secs.length = keys.length ∧
      ∀ sec ∈ secs, sec.length = 33 := by
  induction keys with
  | nil => exact ⟨[], rfl, rfl, by simp⟩
  | cons key keys ih =>
    obtain ⟨sec, hsec, hlength, -⟩ := key.exists_sec
    obtain ⟨secs, hsecs, hcount, hlengths⟩ := ih
    refine ⟨sec :: secs, mapM_eq_ok_iff.mpr (.cons hsec (mapM_eq_ok_iff.mp hsecs)), ?_, ?_⟩
    · rw [List.length_cons, hcount, List.length_cons]
    · exact List.forall_mem_cons.mpr ⟨hlength, hlengths⟩

/-- What is paid to up to 15 keys, of which `required` have to sign: the redeem script can be
written, and in any transaction that can be written, any `required` owners, in the order of their
keys, can spend what is paid to its hash. With their signatures, on top of one further element, and
the redeem script, the input is accepted. -/
theorem verifyInput_multisig {keys : List PrivateKey} {required : ℕ} (hpos : 1 ≤ required)
    (hle : required ≤ keys.length) (hlimit : keys.length ≤ 15) :
    ∃ secs raw, keys.mapM (·.sec true) = .ok secs ∧
      (Script.multisig required secs).encode = .ok raw ∧
      ∀ (tx : Transaction) (index : ℕ) (fetch : Fetcher) (input : Input) (output : Output),
        (∃ bytes, tx.encode = .ok bytes) → tx.input index = .ok input →
        input.spent fetch tx.testnet = .ok output →
        output.locking = Script.payToScriptHash (Hash.hash160 raw) →
        ∃ z, tx.sigHash index (some (Script.multisig required secs)) fetch = .ok z ∧
          ∀ (owners : List (Fin keys.length)) (sigs : List Signature),
            owners.Pairwise (· < ·) → owners.length = required →
            List.Forall₂ (fun owner sig => keys[owner].sign z = .ok sig) owners sigs →
            ∃ signed, tx.setUnlocking index (signaturePushes sigs ++ [.push raw]) = .ok signed ∧
              (signed.verifyInput index fetch).map (·.value) = .ok true := by
  obtain ⟨secs, hsecs, hcount, hlengths⟩ := exists_secs keys
  rw [← hcount] at hle hlimit
  obtain ⟨raw, hraw, hlength⟩ := Script.exists_encode_multisig hlengths hpos hle hlimit
  refine ⟨secs, raw, hsecs, hraw, ?_⟩
  intro tx index fetch input output hencode hinput hspent hlocking
  obtain ⟨z, hz⟩ := exists_sigHash_some hinput (Script.writable_of_encode hraw)
    (writable_of_mem_outputs hencode) fetch
  refine ⟨z, hz, ?_⟩
  intro owners sigs hincreasing howners hsigs
  obtain ⟨signed, hset, hsigned, hsame, htestnet, -⟩ :=
    exists_setUnlocking hinput (signaturePushes sigs ++ [.push raw])
  have hspent' : ({ input with unlocking := signaturePushes sigs ++ [.push raw] } :
      Input).spent fetch signed.testnet = .ok output := by
    rw [htestnet]
    exact hspent
  have hz' : signed.sigHash index (some (Script.multisig required secs)) fetch = .ok z :=
    (hsame.sigHash_eq htestnet.symm index _ fetch).symm.trans hz
  have hmatch : Operation.areSigned z secs (sigs.map signatureElement) = true := by
    refine areSigned_signatureElement hsecs (List.map_getElem_sublist hincreasing) ?_
    rw [List.forall₂_map_left_iff]
    exact hsigs
  obtain rfl : sigs.length = required := hsigs.length_eq.symm.trans howners
  exact ⟨signed, hset, verifyInput_of_areSigned hsigned hspent' hlocking rfl hraw (by omega) hz'
    hlengths hpos hle hlimit hmatch⟩

/-! Two of three: the first two keys are the same, and the first of the two signatures matches both
of them. -/

/-- The public key with the secret 2 in its compressed form. -/
def doubleSec : Bytes :=
  0x02 :: Bytes.ofNatBE 32 0xc6047f9441ed7d6d3045406e95c07cd85c778e4b8cef3ca7abac09b95c709ee5

def twoOfThree : Script := Script.multisig 2 [generatorSec, generatorSec, doubleSec]

def twoOfThreeRaw : Bytes :=
  0x52 :: ((33 :: generatorSec) ++ (33 :: generatorSec) ++ (33 :: doubleSec) ++ [0x53, 0xae])

def payTwoOfThree : Script := Script.payToScriptHash (Hash.hash160 twoOfThreeRaw)

def twoOfThreeHash : ℕ :=
  0xd4c574498af9a60333e2bd9f20334b0b9bcb78ae282303512c87c62bdbac0f7a

theorem sigHash_twoOfThree :
    (spending []).sigHash 0 (some twoOfThree) (paying payTwoOfThree) = .ok twoOfThreeHash :=
  eq_ok_of_toOption (by decide +kernel)

theorem sec_double {key : PrivateKey} (h : key.secret = 2) : key.sec true = .ok doubleSec := by
  have hcurve : (0x1ae168fea63dc339a3c58419466ceaeef7f632653266d0e1236431a950cfe52a :
        ZMod Secp256k1.p) * 0x1ae168fea63dc339a3c58419466ceaeef7f632653266d0e1236431a950cfe52a =
      0xc6047f9441ed7d6d3045406e95c07cd85c778e4b8cef3ca7abac09b95c709ee5 *
          0xc6047f9441ed7d6d3045406e95c07cd85c778e4b8cef3ca7abac09b95c709ee5 *
        0xc6047f9441ed7d6d3045406e95c07cd85c778e4b8cef3ca7abac09b95c709ee5 +
      0 * 0xc6047f9441ed7d6d3045406e95c07cd85c778e4b8cef3ca7abac09b95c709ee5 + 7 := by
    decide +kernel
  unfold PrivateKey.sec
  rw [key.point_eq_ofAffine, h, Secp256k1.basePoint, Jacobian.nsmul_eq_of_isMultiple _
    (Secp256k1.nonsingular_iff.mpr hcurve) (by decide +kernel), Point.toSec_ofAffine_some]
  decide +kernel

theorem exists_sign_one_twoOfThree {key : PrivateKey} (h : key.secret = 1) :
    ∃ sig, key.sign twoOfThreeHash = .ok sig :=
  PrivateKey.exists_sign_of_isMultiple h (by decide)
    0xf8c1608cabdf91b6b3c4a1d8a895614f85086613d5ea40708a2115d81f45d377
    0x714bce2c2b4f6cc91b63cf8d1417a81cbe58ce2701d486db4c003d7560c4123d
    0x7e56d8d5cac0a47d023922c716b8bccc484f16ed743dad9f6c39f13110ad2b37
    (by decide +kernel) (by decide) (by decide +kernel) (by decide +kernel) (by decide +kernel)
    (by decide +kernel)

theorem exists_sign_two_twoOfThree {key : PrivateKey} (h : key.secret = 2) :
    ∃ sig, key.sign twoOfThreeHash = .ok sig :=
  PrivateKey.exists_sign_of_isMultiple h (by decide)
    0xcb75c0e4909a0681ae66c4453e66859d036a8c1ad7b356bb3ca3788621787834
    0xbac12f9b3ee91237b1483879302eb7b7543941445963d5e1b7cd4cead3ec5eb4
    0xb0e91aa440a16a259ede0de60e3e78236782adf1a8ad74feae226f7af547bce2
    (by decide +kernel) (by decide) (by decide +kernel) (by decide +kernel) (by decide +kernel)
    (by decide +kernel)

theorem verifyInput_twoOfThree :
    ∃ one two sigs signed, PrivateKey.ofSecret 1 = .ok one ∧ PrivateKey.ofSecret 2 = .ok two ∧
      1 ≤ 2 ∧ 2 ≤ [one, one, two].length ∧ [one, one, two].length ≤ 15 ∧
      [one, one, two].mapM (·.sec true) = .ok [generatorSec, generatorSec, doubleSec] ∧
      twoOfThree.encode = .ok twoOfThreeRaw ∧
      List.Forall₂ (fun key sig => PrivateKey.sign key twoOfThreeHash = .ok sig) [one, two] sigs ∧
      (spending []).setUnlocking 0 (signaturePushes sigs ++ [.push twoOfThreeRaw]) = .ok signed ∧
      (signed.verifyInput 0 (paying payTwoOfThree)).map (·.value) = .ok true := by
  obtain ⟨one, hone, hsecretOne⟩ := PrivateKey.exists_ofSecret Nat.one_pos (by decide)
  obtain ⟨two, htwo, hsecretTwo⟩ := PrivateKey.exists_ofSecret (show 0 < 2 by decide) (by decide)
  obtain ⟨first, hfirst⟩ := exists_sign_one_twoOfThree hsecretOne
  obtain ⟨second, hsecond⟩ := exists_sign_two_twoOfThree hsecretTwo
  have hgenerator : one.sec true = .ok generatorSec := by
    rw [PrivateKey.sec, PrivateKey.point_eq_generator hsecretOne]
    exact eq_ok_of_toOption (by decide +kernel)
  have hkeys : [one, one, two].mapM (·.sec true) = .ok [generatorSec, generatorSec, doubleSec] :=
    mapM_eq_ok_iff.mpr (.cons hgenerator (.cons hgenerator (.cons (sec_double hsecretTwo) .nil)))
  have hwritten : twoOfThree.encode = .ok twoOfThreeRaw := eq_ok_of_toOption (by decide +kernel)
  have hsize : (spending []).encode.toOption.map List.length = some 51 := by decide +kernel
  obtain ⟨bytes, hbytes, -⟩ := exists_ok_of_length_toOption hsize
  have hthree : [one, one, two].length = 3 := rfl
  obtain ⟨secs, raw, hsecs, hraw, hspend⟩ :=
    @verifyInput_multisig [one, one, two] 2 (by decide) (by rw [hthree]; decide)
      (by rw [hthree]; decide)
  obtain rfl := Except.ok.inj (hsecs.symm.trans hkeys)
  obtain rfl := Except.ok.inj (hraw.symm.trans hwritten)
  obtain ⟨z, hz, haccept⟩ := hspend (spending []) 0 (paying payTwoOfThree) (firstSpend [])
    ⟨1, payTwoOfThree⟩ ⟨bytes, hbytes⟩ rfl rfl rfl
  obtain rfl := Except.ok.inj (hz.symm.trans sigHash_twoOfThree)
  have hsigs : List.Forall₂ (fun owner sig => [one, one, two][owner].sign twoOfThreeHash = .ok sig)
      [(1 : Fin 3), 2] [first, second] := .cons hfirst (.cons hsecond .nil)
  have hincreasing : [(1 : Fin 3), 2].Pairwise (· < ·) := by decide
  obtain ⟨signed, hset, haccepted⟩ := haccept [1, 2] [first, second] hincreasing rfl hsigs
  exact ⟨one, two, [first, second], signed, hone, htwo, by decide, by rw [hthree]; decide,
    by rw [hthree]; decide, hkeys, hwritten, .cons hfirst (.cons hsecond .nil), hset, haccepted⟩

end Transaction

end CoinSpend
