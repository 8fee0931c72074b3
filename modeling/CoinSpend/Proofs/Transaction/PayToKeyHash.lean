import CoinSpend.Proofs.Ecdsa.SignVerify
import CoinSpend.Proofs.Script.Operation
import CoinSpend.Proofs.Transaction.Verify
import Mathlib

/-!
# Spending what is paid to a key hash

The unlocking script and the locking script of a spend are run as one program. None of the
instructions of a locking script that pays to a key hash is part of a conditional, so whatever the
unlocking script does, it is run to its end by itself and the five locking instructions are run on
the stacks that it leaves.

Results:
* `Script.exec_payToKeyHash_iff`: what the locking script asks of the stacks.
* `Script.evaluate_append_payToKeyHash_iff`: what it asks of an unlocking script.
* `Transaction.verifyInput_payToKeyHash`: what it asks of an input.
-/

namespace CoinSpend

/-- The element `sec` is a public key with the hash, and `sig`, without its last byte, is a
signature by the owner of the key. -/
def OwnerSigned (sigHash : ℕ) (hash : FixedBytes 20) (sec sig : Bytes) : Prop :=
  Hash.hash160 sec = hash ∧ ∃ key signature, Point.ofSec sec = .ok key ∧ sig ≠ [] ∧
    Signature.ofDer sig.dropLast = .ok signature ∧ signature.verifies sigHash key = true

namespace Script

variable {ctx : Context} {hash : FixedBytes 20}

/-! ## The locking script -/

theorem isPlain_of_mem_payToKeyHash :
    ∀ i ∈ payToKeyHash hash, i.isPlain = true := by
  intro i hi
  simp only [payToKeyHash, List.mem_cons, List.not_mem_nil, or_false] at hi
  rcases hi with rfl | rfl | rfl | rfl | rfl <;> rfl

/-- The locking script takes a public key with the hash, and tells whether the element below it is a
signature under the key. It needs room for two more elements. -/
theorem exec_payToKeyHash_iff {s t : Stack} :
    exec ctx (payToKeyHash hash) s = .ok t ↔
      ∃ sec sig rest, s.main = sec :: sig :: rest ∧ s.size + 2 ≤ Stack.sizeLimit ∧
        Hash.hash160 sec = hash ∧
        t = ⟨ScriptNumber.ofBool (Operation.isSigned ctx.sigHash sec sig) :: rest, s.alt⟩ := by
  unfold payToKeyHash
  simp only [exec_dup_eq_ok_iff, exec_hash160_eq_ok_iff, exec_push_eq_ok_iff,
    exec_equalVerify_eq_ok_iff, exec_checkSig_eq_ok_iff, exec_nil, Except.ok.injEq,
    List.cons.injEq]
  constructor
  · rintro ⟨sec, _, hmain, -, _, _, ⟨rfl, rfl⟩, -, -, hroom, _, _, ⟨rfl, hhash, rfl⟩, -,
      _, sig, rest, ⟨rfl, rfl⟩, -, rfl⟩
    refine ⟨sec, sig, rest, hmain, ?_, Subtype.ext hhash, rfl⟩
    simp only [Stack.size, hmain, List.length_cons] at hroom ⊢
    omega
  · rintro ⟨sec, sig, rest, hmain, hroom, rfl, rfl⟩
    have hlength := (Hash.hash160 sec).property
    simp only [Stack.size, Stack.sizeLimit, Stack.elementLimit, hmain, List.length_cons] at hroom ⊢
    refine ⟨sec, _, rfl, by omega, sec, _, ⟨rfl, rfl⟩, ?_, by omega, ?_, _, _, ⟨rfl, rfl, rfl⟩,
      ?_, sec, sig, rest, rfl, ?_, rfl⟩
    all_goals simp only [List.length_cons]
    all_goals omega

/-! ## Unlocking scripts -/

theorem not_endsInSpend_append_payToKeyHash (unlocking : Script) :
    ¬ (unlocking ++ payToKeyHash hash).EndsInSpend := by
  intro h
  have hlast := h.getLast?
  rw [List.getLast?_append] at hlast
  simp [payToKeyHash, Opcode.checkSig, Opcode.equal] at hlast

/-- A script that ends in the spend of a script hash leaves no public key on top. -/
theorem not_endsInSpend_of_ofSec {unlocking : Script} {s : Stack} {sec : Bytes}
    {rest alt : List Bytes} {key : Point} (h : exec ctx unlocking s = .ok ⟨sec :: rest, alt⟩)
    (hkey : Point.ofSec sec = .ok key) : ¬ unlocking.EndsInSpend := by
  rintro ⟨before, redeem, target, rfl⟩
  have hplain : ∀ i ∈ .push redeem :: payToScriptHash target, i.isPlain = true :=
    isPlain_of_mem_spend
  unfold payToScriptHash at h hplain
  rw [exec_append (Branches.endsNone_of_plain hplain), bind_eq_ok_iff] at h
  simp only [exec_push_eq_ok_iff, exec_hash160_eq_ok_iff, exec_equal_eq_ok_iff, exec_nil,
    Except.ok.injEq, Stack.mk.injEq, List.cons.injEq] at h
  obtain ⟨s₁, -, -, -, _, _, -, -, -, -, a, b, _, -, -, ⟨rfl, -⟩, -⟩ := h
  cases h : decide (a = b) with
  | false =>
    rw [h, ScriptNumber.ofBool_false] at hkey
    cases hkey
  | true =>
    rw [h, ScriptNumber.ofBool_true] at hkey
    cases hkey

theorem exec_two_pushes {first second : Bytes} (hfirst : first.length ≤ Stack.elementLimit)
    (hsecond : second.length ≤ Stack.elementLimit) :
    exec ctx [.push first, .push second] Stack.empty = .ok ⟨[second, first], []⟩ := by
  have hempty : Stack.size Stack.empty < Stack.sizeLimit := by decide
  have hone : Stack.size ⟨[first], []⟩ < Stack.sizeLimit := by simp [Stack.size, Stack.sizeLimit]
  rw [exec_push_eq_ok_iff, exec_push_eq_ok_iff]
  exact ⟨hfirst, hempty, hsecond, hone, exec_nil _⟩

/-- What is paid to a key hash is unlocked by the scripts that leave, on top of the signature, the
public key. -/
theorem evaluate_append_payToKeyHash_iff {unlocking : Script} :
    (evaluate ctx (unlocking ++ payToKeyHash hash)).value = true ↔
      ∃ sec sig rest alt, exec ctx unlocking Stack.empty = .ok ⟨sec :: sig :: rest, alt⟩ ∧
        Stack.size ⟨sec :: sig :: rest, alt⟩ + 2 ≤ Stack.sizeLimit ∧
        OwnerSigned ctx.sigHash hash sec sig := by
  rw [evaluate_iff, run_eq_exec (not_endsInSpend_append_payToKeyHash unlocking),
    exec_append (Branches.endsNone_of_plain isPlain_of_mem_payToKeyHash)]
  simp only [bind_eq_ok_iff, exec_payToKeyHash_iff, OwnerSigned, ← Operation.isSigned_iff]
  constructor
  · rintro ⟨top, below, alt, ⟨⟨main, alt⟩, hexec, sec, sig, rest, rfl, hroom, hhash, heq⟩, htop⟩
    cases heq
    rw [ScriptNumber.ofBool_ne_nil_iff] at htop
    exact ⟨sec, sig, _, _, hexec, hroom, hhash, htop⟩
  · rintro ⟨sec, sig, rest, alt, hexec, hroom, hhash, hsigned⟩
    refine ⟨_, rest, alt, ⟨_, hexec, sec, sig, rest, rfl, hroom, hhash, rfl⟩, ?_⟩
    rw [ScriptNumber.ofBool_ne_nil_iff]
    exact hsigned

end Script

namespace Transaction

/-! ## Inputs -/

theorem verifyInput_eq_map {tx : Transaction} {index : ℕ} {fetch : Fetcher} {input : Input}
    {output : Output} {hash : FixedBytes 20} (hinput : tx.input index = .ok input)
    (hspent : input.spent fetch tx.testnet = .ok output)
    (hlocking : output.locking = Script.payToKeyHash hash) :
    tx.verifyInput index fetch = (tx.sigHash index none fetch).map fun z =>
      tx.runInput input (Script.payToKeyHash hash) z := by
  have hnone : output.locking.scriptHash? = none := by
    rw [hlocking]
    rfl
  rw [verifyInput_of_scriptHash?_eq_none hinput hspent hnone, hlocking]

theorem verifyInput_eq_ok_true_iff {tx : Transaction} {index : ℕ} {fetch : Fetcher}
    {input : Input} {output : Output} {hash : FixedBytes 20} (hinput : tx.input index = .ok input)
    (hspent : input.spent fetch tx.testnet = .ok output)
    (hlocking : output.locking = Script.payToKeyHash hash) :
    (tx.verifyInput index fetch).map (·.value) = .ok true ↔
      ∃ z sec sig rest alt, tx.sigHash index none fetch = .ok z ∧
        input.unlocking.exec ⟨z, tx.version, tx.locktime, input.sequence⟩ Stack.empty =
          .ok ⟨sec :: sig :: rest, alt⟩ ∧
        Stack.size ⟨sec :: sig :: rest, alt⟩ + 2 ≤ Stack.sizeLimit ∧
        OwnerSigned z hash sec sig := by
  rw [verifyInput_eq_map hinput hspent hlocking]
  simp only [map_eq_ok_iff, runInput]
  constructor
  · rintro ⟨_, ⟨z, hz, rfl⟩, hvalue⟩
    obtain ⟨sec, sig, rest, alt, h⟩ := Script.evaluate_append_payToKeyHash_iff.mp hvalue
    exact ⟨z, sec, sig, rest, alt, hz, h⟩
  · rintro ⟨z, sec, sig, rest, alt, hz, h⟩
    exact ⟨_, ⟨z, hz, rfl⟩, Script.evaluate_append_payToKeyHash_iff.mpr ⟨sec, sig, rest, alt, h⟩⟩

/-- What is paid to a key hash is spent only if the unlocking script by itself succeeds and leaves
a public key with the hash on top of a signature of the transaction under it. Conversely, pushes of
such a signature and key spend it. -/
theorem verifyInput_payToKeyHash {tx : Transaction} {index : ℕ} {fetch : Fetcher}
    {input : Input} {output : Output} {hash : FixedBytes 20} (hinput : tx.input index = .ok input)
    (hspent : input.spent fetch tx.testnet = .ok output)
    (hlocking : output.locking = Script.payToKeyHash hash) :
    ((tx.verifyInput index fetch).map (·.value) = .ok true →
      ∃ z sec sig rest alt, tx.sigHash index none fetch = .ok z ∧
        (input.unlocking.run ⟨z, tx.version, tx.locktime, input.sequence⟩).value =
          .ok ⟨sec :: sig :: rest, alt⟩ ∧
        OwnerSigned z hash sec sig) ∧
      ∀ z sec sig, input.unlocking = [.push sig, .push sec] → sig.length ≤ 520 →
        sec.length ≤ 520 → tx.sigHash index none fetch = .ok z → OwnerSigned z hash sec sig →
        (tx.verifyInput index fetch).map (·.value) = .ok true := by
  rw [verifyInput_eq_ok_true_iff hinput hspent hlocking]
  constructor
  · rintro ⟨z, sec, sig, rest, alt, hz, hexec, -, hsigned⟩
    obtain ⟨key, -, hkey, -⟩ := hsigned.2
    refine ⟨z, sec, sig, rest, alt, hz, ?_, hsigned⟩
    rw [Script.run_eq_exec (Script.not_endsInSpend_of_ofSec hexec hkey)]
    exact hexec
  · intro z sec sig hunlocking hsig hsec hz hsigned
    refine ⟨z, sec, sig, [], [], hz, ?_, by simp [Stack.size, Stack.sizeLimit], hsigned⟩
    rw [hunlocking]
    exact Script.exec_two_pushes hsig hsec

/-! The owner of the secret 1, whose public key is the generator, spends what is paid to its hash.
The nonce of the signature is 1 too. -/

/-- The generator in its compressed form. -/
def generatorSec : Bytes :=
  0x02 :: Bytes.ofNatBE 32 0x79be667ef9dcbbac55a06295ce870b07029bfcdb2dce28d959f2815b16f81798

def generatorSignature : Signature where
  r := 0x79be667ef9dcbbac55a06295ce870b07029bfcdb2dce28d959f2815b16f81798
  s := 0xfad296606e966e37331bb252d2214a73c9703717c7ec8a82523cbf122f0486a
  r_pos := by decide
  r_lt := by decide
  s_pos := by decide
  s_lt := by decide

def generatorSignatureBytes : Bytes :=
  [0x30, 68, 0x02, 32] ++ Bytes.ofNatBE 32 generatorSignature.r ++
    [0x02, 32] ++ Bytes.ofNatBE 32 generatorSignature.s ++ [0x01]

def toGenerator : Transaction :=
  ⟨1, [], [⟨1, Script.payToKeyHash (Hash.hash160 generatorSec)⟩], 0, false⟩

def fromGenerator : Transaction :=
  ⟨1, [⟨.replicate 32 0, 0, [.push generatorSignatureBytes, .push generatorSec],
    finalSequence⟩], [], 0, false⟩

def fromGeneratorHash : ℕ :=
  0x7694701aff39dd70372de2450456e0507b7bdc9a04fbaeba40bc1140964de13f

theorem sigHash_fromGenerator :
    fromGenerator.sigHash 0 none (fun _ _ => .ok toGenerator) = .ok fromGeneratorHash :=
  eq_ok_of_toOption (by decide +kernel)

theorem verifies_generatorSignature :
    generatorSignature.verifies fromGeneratorHash Secp256k1.generator = true := by
  obtain ⟨key, -, hsecret⟩ := PrivateKey.exists_ofSecret Nat.one_pos (by decide)
  have hone : Secp256k1.mulGenerator 1 = .ok Secp256k1.generator := by
    rw [Secp256k1.mulGenerator_eq, one_nsmul, Secp256k1.ofAffine_basePoint]
  have hs : (fromGeneratorHash + generatorSignature.r * key.secret) * 1 % Secp256k1.n =
      Secp256k1.n - generatorSignature.s := by
    rw [hsecret]
    decide
  have hr : 0x79be667ef9dcbbac55a06295ce870b07029bfcdb2dce28d959f2815b16f81798 % Secp256k1.n =
      generatorSignature.r := by decide
  have hsign := key.signWith?_of_point fromGeneratorHash hone (by decide +kernel) hr hs
  have hlow : PrivateKey.lowS (Secp256k1.n - generatorSignature.s) = generatorSignature.s := by
    decide
  rw [if_neg (by decide), hlow, generatorSignature.ofComponents_components] at hsign
  rw [← PrivateKey.point_eq_generator hsecret]
  exact PrivateKey.verifies_of_signWith? hsign

theorem ownerSigned_generator :
    OwnerSigned fromGeneratorHash (Hash.hash160 generatorSec) generatorSec
      generatorSignatureBytes := by
  refine ⟨rfl, Secp256k1.generator, generatorSignature, ?_, by decide, ?_,
    verifies_generatorSignature⟩
  · exact eq_ok_of_toOption (by decide +kernel)
  · exact eq_ok_of_toOption (by decide +kernel)

theorem verifyInput_fromGenerator :
    ∃ input output, fromGenerator.input 0 = .ok input ∧
      input.spent (fun _ _ => .ok toGenerator) false = .ok output ∧
      output.locking = Script.payToKeyHash (Hash.hash160 generatorSec) ∧
      (fromGenerator.verifyInput 0 fun _ _ => .ok toGenerator).map (·.value) = .ok true :=
  ⟨_, _, rfl, rfl, rfl, (verifyInput_payToKeyHash rfl rfl rfl).2 _ generatorSec
    generatorSignatureBytes rfl (by decide) (by decide) sigHash_fromGenerator
    ownerSigned_generator⟩

end Transaction

end CoinSpend
