import CoinSpend.Proofs.Script.Reach
import CoinSpend.Proofs.Transaction.PayToScriptHash
import Mathlib

/-!
# Which inputs have a redeem script run

The check of an input looks for a redeem script if the locking script has the form that pays to a
script hash. The run of the program of both scripts looks at the last four instructions, wherever
they come from. Both look at the same script if the locking script has that form. Otherwise the run
enters a redeem script only if the four instructions are the end of the locking script, or if the
locking script is a part of the three behind the push; all other programs are run instruction by
instruction.

Results:
* `Script.append_eq_spend_cases`: where the spend at the end of a program comes from.
* `Script.run_eq_runFrom`: the run of a program that enters no redeem script.
* `Transaction.verifyInput_entersRedeem`: what an input that has a redeem script run spends.
-/

namespace CoinSpend

namespace Script

/-! ## The end of a program -/

/-- The program of the two scripts ends in the spend of a script hash, though the locking script has
not the form that pays to one: it holds the push as well, or not all that stands behind it. -/
def SpendsOutOfForm (unlocking locking : Script) : Prop :=
  locking.EndsInSpend ∨ locking.length < 3 ∧ (unlocking ++ locking).EndsInSpend

variable {unlocking locking : Script}

theorem SpendsOutOfForm.endsInSpend (h : SpendsOutOfForm unlocking locking) :
    (unlocking ++ locking).EndsInSpend := by
  rcases h with ⟨before, raw, hash, rfl⟩ | ⟨-, h⟩
  · exact ⟨unlocking ++ before, raw, hash, (List.append_assoc ..).symm⟩
  · exact h

theorem SpendsOutOfForm.scriptHash?_eq_none (h : SpendsOutOfForm unlocking locking) :
    locking.scriptHash? = none := by
  have hlength : locking.length ≠ 3 := by
    rcases h with ⟨before, raw, hash, rfl⟩ | ⟨hlt, -⟩
    · simp only [payToScriptHash, List.length_append, List.length_cons, List.length_nil]
      omega
    · omega
  by_contra hsome
  obtain ⟨hash, hsome⟩ := Option.ne_none_iff_exists'.mp hsome
  rw [scriptHash?_eq_some_iff.mp hsome] at hlength
  exact hlength rfl

/-- The spend at the end of a program is the last push of the unlocking script and the locking
script, or the locking script is out of form. -/
theorem append_eq_spend_cases {before : Script} {raw : Bytes} {hash : FixedBytes 20}
    (h : unlocking ++ locking = before ++ .push raw :: payToScriptHash hash) :
    (unlocking = before ++ [.push raw] ∧ locking = payToScriptHash hash) ∨
      SpendsOutOfForm unlocking locking := by
  rcases List.append_eq_append_iff.mp h with ⟨inside, rfl, hlocking⟩ | ⟨front, rfl, hspend⟩
  · exact .inr (.inl ⟨inside, raw, hash, hlocking⟩)
  · cases front with
    | nil => exact .inr (.inl ⟨[], raw, hash, hspend.symm⟩)
    | cons i front =>
      rw [List.cons_append, List.cons.injEq] at hspend
      obtain ⟨rfl, hspend⟩ := hspend
      cases front with
      | nil => exact .inl ⟨rfl, hspend.symm⟩
      | cons j front =>
        have hlength := congrArg List.length hspend
        simp only [payToScriptHash, List.length_append, List.length_cons, List.length_nil]
          at hlength
        exact .inr (.inr ⟨by omega, before, raw, hash, h⟩)

/-- A program that enters no redeem script is run as in front of a frame that has nothing to do. -/
theorem run_eq_runFrom {ctx : Context} {script : Script}
    (h : ∀ raw, ¬ script.EntersRedeem ctx raw) :
    script.run ctx = script.runFrom ctx Stack.empty := by
  refine (Machine.run_append_finished rfl (Machine.start script).frames Stack.empty ?_).symm
  intro f s hreach
  by_contra hspend
  obtain ⟨⟨raw, hash⟩, hspend⟩ := Option.ne_none_iff_exists'.mp hspend
  exact h raw ⟨f, s, hash, hreach, hspend⟩

/-- Instruction by instruction, the spend of a script hash tells whether the hash is that of the
redeem script, and does not run it. It needs room for two elements. -/
theorem exec_spend {ctx : Context} {raw : Bytes} {hash : FixedBytes 20} {s : Stack}
    (hlength : raw.length ≤ Stack.elementLimit) (hroom : s.size + 2 ≤ Stack.sizeLimit) :
    exec ctx (.push raw :: payToScriptHash hash) s =
      .ok ⟨ScriptNumber.ofBool ((Hash.hash160 raw).val = hash.val) :: s.main, s.alt⟩ := by
  have hhash : hash.val.length ≤ Stack.elementLimit := by
    rw [hash.property]
    decide
  rw [Stack.size] at hroom
  refine exec_push_eq_ok_iff.mpr ⟨hlength, by rw [Stack.size]; omega, ?_⟩
  refine exec_hash160_eq_ok_iff.mpr
    ⟨raw, s.main, rfl, by simp only [Stack.size, List.length_cons]; omega, ?_⟩
  refine exec_push_eq_ok_iff.mpr
    ⟨hhash, by simp only [Stack.size, List.length_cons]; omega, ?_⟩
  exact exec_equal_eq_ok_iff.mpr
    ⟨_, _, s.main, rfl, by simp only [Stack.size, List.length_cons]; omega, exec_nil _⟩

theorem redeemScript?_append_push (before : Script) (raw : Bytes) :
    redeemScript? (before ++ [.push raw]) = (decode raw).toOption := by
  simp [redeemScript?, Instruction.data?]

end Script

namespace Transaction

/-! ## Inputs -/

/-- An input has a redeem script run only if it spends what is paid to a script hash and pushes the
script last, and then the hash for the signatures is that for this script; or if the program ends in
a spend though the locking script is out of form. The hash is then that for the locking script, and
the redeem script is entered as soon as the run comes to the spend. All other programs are run as if
a spend were nothing special. -/
theorem verifyInput_entersRedeem {tx : Transaction} {index : ℕ} {fetch : Fetcher} {input : Input}
    {output : Output} (hinput : tx.input index = .ok input)
    (hspent : input.spent fetch tx.testnet = .ok output) :
    (∀ ctx raw, (input.unlocking ++ output.locking).EntersRedeem ctx raw →
      (∃ before hash, input.unlocking = before ++ [.push raw] ∧
        output.locking = Script.payToScriptHash hash ∧
        tx.verifyInput index fetch = match Script.decode raw with
          | .error _ => .ok ⟨[.noRedeemScript index], false⟩
          | .ok script => (tx.sigHash index (some script) fetch).map
            (tx.runInput input output.locking)) ∨
      (output.locking.scriptHash? = none ∧
        Script.SpendsOutOfForm input.unlocking output.locking)) ∧
    (output.locking.scriptHash? = none →
      tx.verifyInput index fetch =
        (tx.sigHash index none fetch).map (tx.runInput input output.locking) ∧
      (Script.SpendsOutOfForm input.unlocking output.locking → ∃ before raw hash,
        input.unlocking ++ output.locking =
          before ++ .push raw :: Script.payToScriptHash hash ∧
        ∀ ctx s, (before.runFrom ctx Stack.empty).value = .ok s →
          (input.unlocking ++ output.locking).EntersRedeem ctx raw) ∧
      (¬ Script.SpendsOutOfForm input.unlocking output.locking → ∀ ctx,
        (input.unlocking ++ output.locking).run ctx =
          (input.unlocking ++ output.locking).runFrom ctx Stack.empty)) := by
  constructor
  · intro ctx raw henters
    obtain ⟨before, hash, hprogram⟩ := henters.eq_append
    rcases Script.append_eq_spend_cases hprogram with ⟨hunlocking, hlocking⟩ | hout
    · refine .inl ⟨before, hash, hunlocking, hlocking, ?_⟩
      rw [verifyInput_eq_of_scriptHash?_eq_some hinput hspent
        (Script.scriptHash?_eq_some_iff.mpr hlocking), hunlocking,
        Script.redeemScript?_append_push]
      cases Script.decode raw <;> rfl
    · exact .inr ⟨hout.scriptHash?_eq_none, hout⟩
  · intro hnone
    refine ⟨verifyInput_of_scriptHash?_eq_none hinput hspent hnone, fun hout => ?_,
      fun hform ctx => ?_⟩
    · obtain ⟨before, raw, hash, hprogram⟩ := hout.endsInSpend
      refine ⟨before, raw, hash, hprogram, fun ctx s hbefore => ?_⟩
      rw [Script.runFrom_value] at hbefore
      rw [hprogram]
      exact Script.entersRedeem_append hbefore
    · refine Script.run_eq_runFrom fun raw henters => ?_
      obtain ⟨before, hash, hprogram⟩ := henters.eq_append
      rcases Script.append_eq_spend_cases hprogram with ⟨-, hlocking⟩ | hout
      · rw [Script.scriptHash?_eq_some_iff.mpr hlocking] at hnone
        cases hnone
      · exact hform hout

/-- Delivers a transaction with one output, whatever is asked for. -/
def paying (locking : Script) : Fetcher := fun _ _ => .ok ⟨1, [], [⟨1, locking⟩], 0, false⟩

/-- An input that spends the first output of a transaction. -/
def firstSpend (unlocking : Script) : Input :=
  ⟨.replicate 32 0, 0, unlocking, finalSequence⟩

/-- A transaction with one input. -/
def spending (unlocking : Script) : Transaction := ⟨1, [firstSpend unlocking], [], 0, false⟩

/-- A redeem script that puts a true element on the stack. -/
def oneRaw : Bytes := [0x51]

def payOne : Script := Script.payToScriptHash (Hash.hash160 oneRaw)

theorem verifyInput_payOne :
    (spending [.push oneRaw]).input 0 = .ok (firstSpend [.push oneRaw]) ∧
      (firstSpend [.push oneRaw]).spent (paying payOne) false = .ok ⟨1, payOne⟩ ∧
      (∀ ctx, Script.EntersRedeem ctx ([.push oneRaw] ++ payOne) oneRaw) ∧
      (spending [.push oneRaw]).verifyInput 0 (paying payOne) =
        ((spending [.push oneRaw]).sigHash 0 (some [.op 0x51]) (paying payOne)).map
          ((spending [.push oneRaw]).runInput (firstSpend [.push oneRaw]) payOne) := by
  have hinput : (spending [.push oneRaw]).input 0 = .ok (firstSpend [.push oneRaw]) := rfl
  have hspent : (firstSpend [.push oneRaw]).spent (paying payOne) false = .ok ⟨1, payOne⟩ := rfl
  have hdecode : Script.decode oneRaw = .ok [.op 0x51] := eq_ok_of_toOption (by decide +kernel)
  have henters : ∀ ctx, Script.EntersRedeem ctx ([.push oneRaw] ++ payOne) oneRaw := by
    intro ctx
    exact Script.entersRedeem_append (Script.exec_nil Stack.empty)
  refine ⟨hinput, hspent, henters, ?_⟩
  rcases (verifyInput_entersRedeem hinput hspent).1 ⟨0, 0, 0, 0⟩ oneRaw (henters _) with
    ⟨before, hash, -, -, hverify⟩ | ⟨hnone, -⟩
  · rw [hdecode] at hverify
    exact hverify
  · cases hnone

/-- A redeem script that puts a false element on the stack. -/
def zeroRaw : Bytes := [0x00]

/-- A locking script with the push of the redeem script in it. -/
def payZero : Script := .push zeroRaw :: Script.payToScriptHash (Hash.hash160 zeroRaw)

theorem exec_zero (ctx : Context) :
    Script.exec ctx [.op 0x00] Stack.empty = .ok ⟨[[]], []⟩ := by
  have hop : Opcode.operation? 0x00 = some (.constant 0) := rfl
  have hzero : ScriptNumber.encode 0 = [] := ScriptNumber.ofBool_false
  have hpush : Stack.empty.push (ScriptNumber.encode 0) = .ok ⟨[[]], []⟩ := by
    rw [hzero]
    rfl
  exact (Script.exec_op_eq_ok_iff rfl hop).mpr ⟨_, hpush, Script.exec_nil _⟩

/-- A locking script that is not of the form that pays to a script hash has a redeem script run, and
the input is refused. Run instruction by instruction, it leaves a true element. -/
theorem verifyInput_payZero :
    (spending []).input 0 = .ok (firstSpend []) ∧
      (firstSpend []).spent (paying payZero) false = .ok ⟨1, payZero⟩ ∧
      payZero.scriptHash? = none ∧
      (∀ ctx, Script.EntersRedeem ctx ([] ++ payZero) zeroRaw) ∧
      ((spending []).verifyInput 0 (paying payZero)).map (·.value) = .ok false ∧
      ∀ ctx, (Script.runFrom ctx ([] ++ payZero) Stack.empty).value = .ok ⟨[[1]], []⟩ := by
  have hdecode : Script.decode zeroRaw = .ok [.op 0x00] := eq_ok_of_toOption (by decide +kernel)
  have hrun : ∀ ctx, (Script.run ctx ([] ++ payZero)).value = .ok ⟨[[]], []⟩ := by
    intro ctx
    exact Script.run_append_spend_eq_ok_iff.mpr ⟨[.op 0x00], Stack.empty,
      ⟨by decide, rfl, hdecode⟩, Script.exec_nil _, exec_zero ctx⟩
  have hwritable : ∀ i ∈ payZero, i.Writable := by
    intro i hi
    simp only [payZero, Script.payToScriptHash, List.mem_cons, List.not_mem_nil, or_false] at hi
    rcases hi with rfl | rfl | rfl | rfl
    · exact (by decide : zeroRaw.length ≤ Script.pushLimit)
    · rfl
    · exact (Hash.hash160 zeroRaw).property.trans_le (by decide)
    · rfl
  have hinput : (spending []).input 0 = .ok (firstSpend []) := rfl
  have hspent : (firstSpend []).spent (paying payZero) false = .ok ⟨1, payZero⟩ := rfl
  obtain ⟨z, hz⟩ := exists_sigHash_none hinput hspent hwritable (by simp [spending])
  refine ⟨hinput, hspent, rfl, fun ctx => ?_, ?_, fun ctx => ?_⟩
  · exact Script.entersRedeem_append (Script.exec_nil Stack.empty)
  · rw [verifyInput_of_scriptHash?_eq_none hinput hspent rfl, hz]
    refine congrArg Except.ok ?_
    change (Script.evaluate _ ([] ++ payZero)).value = false
    unfold Script.evaluate
    simp only [hrun]
    rfl
  · rw [Script.runFrom_value, List.nil_append, payZero, Script.exec_spend (by decide) (by decide),
      decide_eq_true rfl, ScriptNumber.ofBool_true]
    rfl

end Transaction

end CoinSpend
