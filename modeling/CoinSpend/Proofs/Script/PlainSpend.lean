import CoinSpend.Proofs.Script.Limits
import CoinSpend.Proofs.Transaction.RedeemRule
import Mathlib

/-!
# The spend of a script hash, instruction by instruction

At the end of a program a run takes the push of a redeem script and the three instructions behind it
in one step, which compares the hashes and leaves the stacks as they are. Run one by one, the four
instructions put two elements on the stack before they take them off again. What the step accepts is
therefore accepted by the instructions only if there is room for two more elements: the step keeps
to the longest element and not to the most elements.

Results:
* `Script.exec_push_of_full`, `Script.exec_spend_of_full`: pushes on full stacks.
* `Script.runFrom_of_evaluate_spend`: what the four instructions make of an accepted program.
* `Script.runFrom_fullStack`: an accepted program that they refuse.
-/

namespace CoinSpend.Script

variable {ctx : Context} {raw : Bytes} {hash : FixedBytes 20} {rest : Script} {s : Stack}

/-! ## At the limit -/

/-- No element can be pushed on full stacks. -/
theorem exec_push_of_full {data : Bytes} (hlength : data.length ≤ Stack.elementLimit)
    (hfull : Stack.sizeLimit ≤ s.size) :
    exec ctx (.push data :: rest) s = .error ⟨.stackSize, none⟩ := by
  have hover : ¬ Stack.size ⟨data :: s.main, s.alt⟩ ≤ Stack.sizeLimit := by
    rw [Stack.size] at hfull
    simp only [Stack.size, List.length_cons]
    omega
  have hpush : s.push data = .error .stackSize := by
    rw [Stack.push, if_pos hlength, Stack.checkSize, if_neg hover]
  have hexec : (Instruction.push data).exec ctx s = .error ⟨.stackSize, none⟩ :=
    congrArg (Instruction.push data).blame hpush
  rw [exec_plain rfl, hexec, error_bind]

/-- Without room for two elements, one of the two pushes fails: the first one on full stacks, and
otherwise the one of the hash, since the hash of the redeem script takes the place of the script. -/
theorem exec_spend_of_full (hlength : raw.length ≤ Stack.elementLimit)
    (hfull : Stack.sizeLimit < s.size + 2) :
    exec ctx (.push raw :: payToScriptHash hash) s = .error ⟨.stackSize, none⟩ := by
  by_cases hroom : s.size < Stack.sizeLimit
  · have hhash : hash.val.length ≤ Stack.elementLimit := by
      rw [hash.property]
      decide
    have hsize : Stack.sizeLimit ≤ Stack.size ⟨(Hash.hash160 raw).val :: s.main, s.alt⟩ := by
      rw [Stack.size] at hfull
      simp only [Stack.size, List.length_cons]
      omega
    have hpush : (Instruction.push raw).exec ctx s = .ok ⟨raw :: s.main, s.alt⟩ :=
      Instruction.exec_push_eq_ok_iff.mpr (Stack.push_eq_ok_iff.mpr ⟨hlength, hroom, rfl⟩)
    have hdigest : (Instruction.op Opcode.hash160).exec ctx ⟨raw :: s.main, s.alt⟩ =
        .ok ⟨(Hash.hash160 raw).val :: s.main, s.alt⟩ := by
      have hop : Opcode.operation? Opcode.hash160 = some (.digest .hash160) := rfl
      refine (Instruction.exec_op_eq_ok_iff hop).mpr
        (Operation.apply_digest_iff.mpr ⟨raw, s.main, rfl, ?_, rfl⟩)
      rw [Stack.size] at hroom
      simp only [Stack.size, List.length_cons]
      omega
    rw [exec_plain rfl, hpush, ok_bind, payToScriptHash, exec_plain rfl, hdigest, ok_bind]
    exact exec_push_of_full hhash hsize
  · exact exec_push_of_full hlength (Nat.not_lt.mp hroom)

/-! ## Programs -/

variable {before : Script}

/-- The instructions of a spend are run behind those before it. -/
theorem runFrom_append_spend (hbefore : (before.runFrom ctx Stack.empty).value = .ok s) :
    (runFrom ctx (before ++ .push raw :: payToScriptHash hash) Stack.empty).value =
      exec ctx (.push raw :: payToScriptHash hash) s := by
  rw [runFrom_value] at hbefore ⊢
  rw [exec_append (Branches.endsNone_of_plain isPlain_of_mem_spend), hbefore, ok_bind]

/-- If a program that ends in the spend of a script hash is accepted, then the instructions before
the spend leave stacks on which the redeem script runs to its end and leaves an element with a byte
on top. The same program, run instruction by instruction, leaves a true element on these stacks if
they hold at most 998 elements. Otherwise it fails at the limit on their number, for which the step
into the redeem script does not ask. It does ask for the limit on the length of an element: behind
instructions that run to their end, a redeem script of more than 520 bytes ends both runs alike. -/
theorem runFrom_of_evaluate_spend (ctx : Context) (before : Script) (raw : Bytes)
    (hash : FixedBytes 20) :
    ((evaluate ctx (before ++ .push raw :: payToScriptHash hash)).value = true →
      ∃ script s top rest alt, decode raw = .ok script ∧
        (before.runFrom ctx Stack.empty).value = .ok s ∧
        (script.runFrom ctx s).value = .ok ⟨top :: rest, alt⟩ ∧ top ≠ [] ∧
        (s.main.length + s.alt.length ≤ 998 → ∃ flag, ScriptNumber.isTrue flag = true ∧
          (runFrom ctx (before ++ .push raw :: payToScriptHash hash) Stack.empty).value =
            .ok ⟨flag :: s.main, s.alt⟩) ∧
        (998 < s.main.length + s.alt.length →
          (runFrom ctx (before ++ .push raw :: payToScriptHash hash) Stack.empty).value =
            .error ⟨.stackSize, none⟩)) ∧
    ∀ s, (before.runFrom ctx Stack.empty).value = .ok s → 520 < raw.length →
      (run ctx (before ++ .push raw :: payToScriptHash hash)).value = .error ⟨.pushSize, none⟩ ∧
      (runFrom ctx (before ++ .push raw :: payToScriptHash hash) Stack.empty).value =
        .error ⟨.pushSize, none⟩ := by
  constructor
  · intro haccepted
    obtain ⟨top, rest, alt, hrun, htop⟩ := evaluate_iff.mp haccepted
    obtain ⟨script, s, hredeem, hbefore, hscript⟩ := run_append_spend_eq_ok_iff.mp hrun
    rw [← runFrom_value] at hbefore hscript
    refine ⟨script, s, top, rest, alt, hredeem.decode, hbefore, hscript, htop, ?_, ?_⟩
    · intro hroom
      refine ⟨ScriptNumber.ofBool ((Hash.hash160 raw).val = hash.val), ?_, ?_⟩
      · rw [ScriptNumber.isTrue_ofBool, decide_eq_true (congrArg Subtype.val hredeem.hash)]
      · rw [runFrom_append_spend hbefore]
        exact exec_spend hredeem.length (Nat.add_le_add_right hroom 2)
    · intro hfull
      rw [runFrom_append_spend hbefore]
      exact exec_spend_of_full hredeem.length (Nat.add_lt_add_right hfull 2)
  · intro s hbefore hlong
    have hover : Stack.elementLimit < raw.length := hlong
    constructor
    · rw [runFrom_value] at hbefore
      rw [run_append_spend, hbefore, ok_bind, redeem, if_pos hover]
      rfl
    · rw [runFrom_append_spend hbefore, exec_plain rfl, Instruction.exec_push_of_long hover,
        error_bind]

theorem runFrom_payOne :
    (evaluate (.plain 0) ([] ++ .push Transaction.oneRaw :: Transaction.payOne)).value = true ∧
      (∃ flag, ScriptNumber.isTrue flag = true ∧
        (runFrom (.plain 0) ([] ++ .push Transaction.oneRaw :: Transaction.payOne)
          Stack.empty).value = .ok ⟨[flag], []⟩) ∧
      520 < longElement.length ∧
      (run (.plain 0) ([] ++ .push longElement :: Transaction.payOne)).value =
        .error ⟨.pushSize, none⟩ ∧
      (runFrom (.plain 0) ([] ++ .push longElement :: Transaction.payOne) Stack.empty).value =
        .error ⟨.pushSize, none⟩ := by
  have hone : exec (.plain 0) [.op 0x51] Stack.empty = .ok ⟨[[1]], []⟩ := by
    have hop : Opcode.operation? 0x51 = some (.constant 1) := rfl
    have hpush : Stack.empty.push (ScriptNumber.encode 1) = .ok ⟨[[1]], []⟩ := by
      rw [show ScriptNumber.encode 1 = [1] from ScriptNumber.ofBool_true]
      rfl
    exact (exec_op_eq_ok_iff rfl hop).mpr ⟨_, hpush, exec_nil _⟩
  have hredeem : IsRedeem (Hash.hash160 Transaction.oneRaw) Transaction.oneRaw [.op 0x51] :=
    ⟨by decide, rfl, eq_ok_of_toOption (by decide +kernel)⟩
  have haccepted :
      (evaluate (.plain 0) ([] ++ .push Transaction.oneRaw :: Transaction.payOne)).value = true :=
    evaluate_iff.mpr ⟨[1], [], [],
      run_append_spend_eq_ok_iff.mpr ⟨[.op 0x51], _, hredeem, exec_nil _, hone⟩, by decide⟩
  have hlong : 520 < longElement.length := by
    rw [longElement, List.length_replicate]
    decide
  have hnothing : (runFrom (.plain 0) [] Stack.empty).value = .ok Stack.empty := by
    rw [runFrom_value, exec_nil]
  have hspend := runFrom_of_evaluate_spend (.plain 0) [] Transaction.oneRaw
    (Hash.hash160 Transaction.oneRaw)
  obtain ⟨_, s, _, _, _, -, hbefore, -, -, hroom, -⟩ := hspend.1 haccepted
  obtain rfl : Stack.empty = s := Except.ok.inj (hnothing.symm.trans hbefore)
  exact ⟨haccepted, hroom (by decide), hlong,
    (runFrom_of_evaluate_spend (.plain 0) [] longElement _).2 Stack.empty hnothing hlong⟩

/-! ## Full stacks -/

theorem exec_replicate_push (n : ℕ) {data : Bytes} (hlength : data.length ≤ Stack.elementLimit)
    (s : Stack) (hroom : s.size + n ≤ Stack.sizeLimit) :
    exec ctx (List.replicate n (.push data)) s =
      .ok ⟨List.replicate n data ++ s.main, s.alt⟩ := by
  induction n generalizing s with
  | zero => exact exec_nil s
  | succ n ih =>
    rw [List.replicate_succ]
    refine exec_push_eq_ok_iff.mpr ⟨hlength, by omega, ?_⟩
    rw [ih _ (by rw [Stack.size] at hroom; simp only [Stack.size, List.length_cons]; omega)]
    simp [List.replicate_succ', List.append_assoc]

/-- Pushes that fill the stacks, in front of the spend of what is paid to an empty redeem script. -/
def fullStack : Script :=
  List.replicate 1000 (.push [1]) ++ .push [] :: payToScriptHash (Hash.hash160 [])

/-- The step into the redeem script is accepted on full stacks, and its instructions are not. -/
theorem runFrom_fullStack :
    (evaluate (.plain 0) fullStack).value = true ∧
      (runFrom (.plain 0) fullStack Stack.empty).value = .error ⟨.stackSize, none⟩ := by
  have hbefore : exec (.plain 0) (List.replicate 1000 (.push [1])) Stack.empty =
      .ok ⟨List.replicate 1000 [1] ++ [], []⟩ :=
    exec_replicate_push 1000 (by decide) Stack.empty (by decide)
  have hredeem : IsRedeem (Hash.hash160 []) [] [] := ⟨by decide, rfl, decode_of_encode rfl⟩
  constructor
  · exact evaluate_iff.mpr ⟨[1], List.replicate 999 [1] ++ [], [],
      run_append_spend_eq_ok_iff.mpr ⟨[], _, hredeem, hbefore, exec_nil _⟩, by decide⟩
  · rw [← runFrom_value] at hbefore
    rw [fullStack, runFrom_append_spend hbefore]
    refine exec_spend_of_full (by decide) ?_
    rw [Stack.size, List.length_append, List.length_replicate]
    decide

end CoinSpend.Script
