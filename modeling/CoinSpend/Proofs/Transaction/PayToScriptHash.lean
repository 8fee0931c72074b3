import CoinSpend.Proofs.Script.Block
import CoinSpend.Proofs.Script.Operation
import CoinSpend.Proofs.Transaction.SigHash
import CoinSpend.Proofs.Transaction.Verify
import Mathlib

/-!
# Spending what is paid to a script hash

An unlocking script for a script hash pushes the redeem script last. The check takes it from there
for the hash to sign, and the run takes it from the end of the program for its frame. Since nothing
in a locking script that pays to a script hash is part of a conditional, the run gets to that end
with its outermost frame only, after the instructions before the push, and both take the same bytes.

Results:
* `Script.run_spend`: a run that ends in the spend of a script hash.
* `Script.evaluate_append_payToScriptHash_iff`: what the locking script asks of an unlocking script.
* `Transaction.verifyInput_payToScriptHash`: what it asks of an input.
-/

namespace CoinSpend

/-- The data `raw` are a redeem script for a hash. -/
structure IsRedeem (hash : FixedBytes 20) (raw : Bytes) (redeem : Script) : Prop where
  length : raw.length ≤ Stack.elementLimit
  hash : Hash.hash160 raw = hash
  decode : Script.decode raw = .ok redeem

namespace Script

variable {ctx : Context} {hash : FixedBytes 20} {raw : Bytes}

/-! ## The spend at the end of a program -/

/-- The redeem script in pushed data, with the errors of a run. -/
def redeem (hash raw : Bytes) : Except Failure Script :=
  if Stack.elementLimit < raw.length then .error ⟨.pushSize, none⟩
  else if (Hash.hash160 raw).val ≠ hash then .error ⟨.redeemHashMismatch, some Opcode.hash160⟩
  else (decode raw).mapError fun _ => ⟨.badRedeemScript, some Opcode.hash160⟩

theorem redeem_eq_ok_iff {script : Script} :
    redeem hash.val raw = .ok script ↔ IsRedeem hash raw script := by
  unfold redeem
  constructor
  · intro h
    split at h
    · simp at h
    · next hlength =>
      split at h
      · simp at h
      · next hhash =>
        exact ⟨Nat.not_lt.mp hlength, Subtype.ext (not_not.mp hhash), mapError_eq_ok_iff.mp h⟩
  · rintro ⟨hlength, hhash, hdecode⟩
    rw [if_neg (Nat.not_lt.mpr hlength), if_neg (not_not.mpr (congrArg Subtype.val hhash)), hdecode]
    rfl

theorem enterRedeemScript_eq (f : Frame) (s : Stack) :
    Machine.enterRedeemScript f raw hash.val s = redeem hash.val raw >>= fun script =>
      .ok ⟨[⟨.redeemScript, 0, script⟩, f.advance 4 []], s⟩ := by
  unfold Machine.enterRedeemScript redeem
  split
  · rfl
  · split
    · rfl
    · cases decode raw <;> rfl

/-- Of the spend of a script hash, a run makes a run of the redeem script. -/
theorem run_spend {f : Frame} (hf : f.todo = .push raw :: payToScriptHash hash) (s : Stack) :
    (Machine.run ctx [f] s).value =
      redeem hash.val raw >>= fun script => exec ctx script s := by
  have hstep : Machine.step ctx f [] s = Machine.enterRedeemScript f raw hash.val s :=
    Machine.step_spend (by rw [hf, spend?_spend]) s
  have hscript : ∀ script : Script,
      (Machine.run ctx [⟨.redeemScript, 0, script⟩, f.advance 4 []] s).value =
        exec ctx script s := by
    intro script
    exact run_before_finished ⟨.redeemScript, 0, script⟩ rfl s
  rw [Machine.run_value, hstep, enterRedeemScript_eq, bind_assoc]
  simp only [ok_bind, hscript]

/-- A program that ends in the spend of a script hash runs what is before it, and then the redeem
script on the stacks that are left. -/
theorem run_append_spend (before : Script) :
    ((before ++ .push raw :: payToScriptHash hash).run ctx).value =
      exec ctx before Stack.empty >>= fun s =>
        redeem hash.val raw >>= fun script => exec ctx script s := by
  refine Machine.run_append rfl isPlain_of_mem_spend ?_ ?_ _
  · intro _ rest _ hrest
    exact spend?_append_spend hrest
  · intro g s hg
    exact run_spend hg s

theorem run_append_spend_eq_ok_iff {before : Script} {t : Stack} :
    ((before ++ .push raw :: payToScriptHash hash).run ctx).value = .ok t ↔
      ∃ script s, IsRedeem hash raw script ∧ exec ctx before Stack.empty = .ok s ∧
        exec ctx script s = .ok t := by
  rw [run_append_spend]
  simp only [bind_eq_ok_iff, redeem_eq_ok_iff]
  constructor
  · rintro ⟨s, hbefore, script, hredeem, hscript⟩
    exact ⟨script, s, hredeem, hbefore, hscript⟩
  · rintro ⟨script, s, hredeem, hbefore, hscript⟩
    exact ⟨s, hbefore, script, hredeem, hscript⟩

/-! ## Unlocking scripts -/

theorem redeemScript?_eq_some_iff {unlocking script : Script} :
    unlocking.redeemScript? = some script ↔
      ∃ before raw, unlocking = before ++ [.push raw] ∧ decode raw = .ok script := by
  unfold redeemScript?
  constructor
  · intro h
    obtain ⟨i, hlast, h⟩ := Option.bind_eq_some_iff.mp h
    obtain ⟨raw, hraw, h⟩ := Option.bind_eq_some_iff.mp h
    obtain ⟨before, rfl⟩ := List.getLast?_eq_some_iff.mp hlast
    cases i with
    | op code => simp [Instruction.data?] at hraw
    | push data =>
      obtain rfl : data = raw := Option.some.inj hraw
      exact ⟨before, data, rfl, eq_ok_of_toOption h⟩
  · rintro ⟨before, raw, rfl, hdecode⟩
    simp [Instruction.data?, hdecode, Except.toOption]

/-- What is paid to a script hash is unlocked by a push of the redeem script behind instructions on
whose stacks the redeem script succeeds. -/
theorem evaluate_append_payToScriptHash_iff {before : Script} :
    (evaluate ctx ((before ++ [.push raw]) ++ payToScriptHash hash)).value = true ↔
      ∃ script s top rest alt, IsRedeem hash raw script ∧
        (runFrom ctx before Stack.empty).value = .ok s ∧
        (runFrom ctx script s).value = .ok ⟨top :: rest, alt⟩ ∧ top ≠ [] := by
  rw [evaluate_iff, List.append_assoc, List.singleton_append]
  simp only [run_append_spend_eq_ok_iff, runFrom_value]
  constructor
  · rintro ⟨top, rest, alt, ⟨script, s, hredeem, hbefore, hscript⟩, htop⟩
    exact ⟨script, s, top, rest, alt, hredeem, hbefore, hscript, htop⟩
  · rintro ⟨script, s, top, rest, alt, hredeem, hbefore, hscript, htop⟩
    exact ⟨top, rest, alt, ⟨script, s, hredeem, hbefore, hscript⟩, htop⟩

end Script

namespace Transaction

/-! ## Inputs -/

variable {tx : Transaction} {index : ℕ} {fetch : Fetcher} {input : Input} {output : Output}
  {hash : FixedBytes 20}

/-- What is paid to a script hash is spent exactly if the unlocking script pushes, at its end, a
redeem script with the hash, and the redeem script succeeds on the stacks that the instructions
before the push leave. The hash for the signatures is that for the redeem script that is run. -/
theorem verifyInput_payToScriptHash (hinput : tx.input index = .ok input)
    (hspent : input.spent fetch tx.testnet = .ok output)
    (hlocking : output.locking = Script.payToScriptHash hash) :
    (tx.verifyInput index fetch).map (·.value) = .ok true ↔
      ∃ (before script : Script) (raw : Bytes) (z : ℕ) (s : Stack) (top : Bytes)
        (rest alt : List Bytes), input.unlocking = before ++ [.push raw] ∧ raw.length ≤ 520 ∧
        Hash.hash160 raw = hash ∧ Script.decode raw = .ok script ∧
        tx.sigHash index (some script) fetch = .ok z ∧
        (before.runFrom ⟨z, tx.version, tx.locktime, input.sequence⟩ Stack.empty).value = .ok s ∧
        (script.runFrom ⟨z, tx.version, tx.locktime, input.sequence⟩ s).value =
          .ok ⟨top :: rest, alt⟩ ∧ top ≠ [] := by
  have hsome : output.locking.scriptHash? = some hash := Script.scriptHash?_eq_some_iff.mpr hlocking
  rw [verifyInput_of_scriptHash?_eq_some hinput hspent hsome]
  constructor
  · intro h
    cases hredeem : input.unlocking.redeemScript? with
    | none => simp [hredeem] at h
    | some signed =>
      obtain ⟨before, raw, hunlocking, hsigned⟩ := Script.redeemScript?_eq_some_iff.mp hredeem
      rw [hredeem] at h
      obtain ⟨z, hz, h⟩ := map_eq_ok_iff.mp h
      rw [runInput, hunlocking, hlocking] at h
      obtain ⟨script, s, top, rest, alt, ⟨hlength, hhash, hdecode⟩, hbefore, hscript, htop⟩ :=
        Script.evaluate_append_payToScriptHash_iff.mp h
      -- the hash is for what the check took, the run is of what the machine took
      obtain rfl : signed = script := Except.ok.inj (hsigned.symm.trans hdecode)
      exact ⟨before, signed, raw, z, s, top, rest, alt, hunlocking, hlength, hhash, hdecode, hz,
        hbefore, hscript, htop⟩
  · rintro ⟨before, script, raw, z, s, top, rest, alt, hunlocking, hlength, hhash, hdecode, hz,
      hbefore, hscript, htop⟩
    rw [Script.redeemScript?_eq_some_iff.mpr ⟨before, raw, hunlocking, hdecode⟩]
    refine map_eq_ok_iff.mpr ⟨z, hz, ?_⟩
    rw [runInput, hunlocking, hlocking]
    exact Script.evaluate_append_payToScriptHash_iff.mpr
      ⟨script, s, top, rest, alt, ⟨hlength, hhash, hdecode⟩, hbefore, hscript, htop⟩

/-! What is paid to a redeem script of one instruction, which takes an element from the alternative
stack, is spent by instructions that put one there behind a conditional. -/

def fromAltRaw : Bytes := [0x6c]

def altBlock : Block :=
  .plain (.push [1]) <| .conditional true (.plain (.push [7]) .nil)
    (.cons (.plain .opReturn .nil) .nil) <| .plain ⟨.op 0x6b, rfl⟩ .nil

def toFromAlt : Transaction :=
  ⟨1, [], [⟨1, Script.payToScriptHash (Hash.hash160 fromAltRaw)⟩], 0, false⟩

def spendFromAlt : Transaction :=
  ⟨1, [⟨.replicate 32 0, 0, altBlock.flatten ++ [.push fromAltRaw], finalSequence⟩],
    [], 0, false⟩

theorem verifyInput_spendFromAlt :
    ∃ input output, spendFromAlt.input 0 = .ok input ∧
      input.spent (fun _ _ => .ok toFromAlt) spendFromAlt.testnet = .ok output ∧
      output.locking = Script.payToScriptHash (Hash.hash160 fromAltRaw) ∧
      (spendFromAlt.verifyInput 0 fun _ _ => .ok toFromAlt).map (·.value) = .ok true := by
  have hwritable : ∀ i ∈ [Instruction.op 0x6c], i.Writable := by
    rw [List.forall_mem_singleton]
    rfl
  obtain ⟨z, hz⟩ := @exists_sigHash_some spendFromAlt 0 _ _ rfl hwritable
    (by simp [spendFromAlt]) fun _ _ => .ok toFromAlt
  refine ⟨_, _, rfl, rfl, rfl, (verifyInput_payToScriptHash rfl rfl rfl).mpr
    ⟨altBlock.flatten, [.op 0x6c], fromAltRaw, _, ⟨[], [[7]]⟩, [7], [], [], rfl, by decide, rfl,
      eq_ok_of_toOption (by decide +kernel), hz, ?_, ?_, by decide⟩⟩
  · rw [Script.runFrom_value, altBlock.exec_flatten]
    rfl
  · rw [Script.runFrom_value, Script.exec_plain_eq_ok_iff rfl]
    exact ⟨_, rfl, Script.exec_nil _⟩

end Transaction

end CoinSpend
