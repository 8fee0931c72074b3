import CoinSpend.Proofs.Outcome
import CoinSpend.Transaction.Sign
import Mathlib

/-!
# What checking a transaction comes to

The cases of a check by the form of the locking script, and the check of a whole transaction as a
statement about its fee and about each of its inputs.

Results:
* `Transaction.verifyInput_of_scriptHash?_eq_none`,
  `Transaction.verifyInput_of_scriptHash?_eq_some`: the run behind the check of an input.
* `Transaction.fee_eq_ok_iff`: what a fee is made of.
* `Transaction.verifyInputs_eq_ok_true_iff`, `Transaction.verify_eq_ok_true_iff`: which
  transactions are good.
-/

namespace CoinSpend

namespace Transaction

variable {tx : Transaction} {index : ℕ} {fetch : Fetcher} {input : Input} {output : Output}

/-! ## Inputs -/

/-- An input that does not spend what is paid to a script hash is run with the hash for the script
that it spends. -/
theorem verifyInput_of_scriptHash?_eq_none (hinput : tx.input index = .ok input)
    (hspent : input.spent fetch tx.testnet = .ok output)
    (hlocking : output.locking.scriptHash? = none) :
    tx.verifyInput index fetch = (tx.sigHash index none fetch).map fun z =>
      tx.runInput input output.locking z := by
  unfold verifyInput
  rw [hinput, ok_bind, hspent, ok_bind]
  simp only [hlocking, Option.isSome_none]
  cases tx.sigHash index none fetch <;> rfl

/-- An input that spends what is paid to a script hash is run with the hash for its redeem script,
if it has one. -/
theorem verifyInput_eq_of_scriptHash?_eq_some {hash : FixedBytes 20}
    (hinput : tx.input index = .ok input) (hspent : input.spent fetch tx.testnet = .ok output)
    (hlocking : output.locking.scriptHash? = some hash) :
    tx.verifyInput index fetch = match input.unlocking.redeemScript? with
      | none => .ok ⟨[.noRedeemScript index], false⟩
      | some script => (tx.sigHash index (some script) fetch).map fun z =>
        tx.runInput input output.locking z := by
  unfold verifyInput
  rw [hinput, ok_bind, hspent, ok_bind]
  simp only [hlocking, Option.isSome_some, if_true]
  cases input.unlocking.redeemScript? with
  | none => rfl
  | some script =>
    simp only
    cases tx.sigHash index (some script) fetch <;> rfl

theorem verifyInput_of_scriptHash?_eq_some {hash : FixedBytes 20}
    (hinput : tx.input index = .ok input) (hspent : input.spent fetch tx.testnet = .ok output)
    (hlocking : output.locking.scriptHash? = some hash) :
    (tx.verifyInput index fetch).map (·.value) = match input.unlocking.redeemScript? with
      | none => .ok false
      | some script => (tx.sigHash index (some script) fetch).map fun z =>
        (tx.runInput input output.locking z).value := by
  rw [verifyInput_eq_of_scriptHash?_eq_some hinput hspent hlocking]
  cases input.unlocking.redeemScript? with
  | none => rfl
  | some script =>
    simp only
    cases tx.sigHash index (some script) fetch <;> rfl

/-! ## Whole transactions -/

theorem fee_eq_ok_iff {amount : ℤ} :
    tx.fee fetch = .ok amount ↔ ∃ spent,
      List.Forall₂ (fun input output => input.spent fetch tx.testnet = .ok output) tx.inputs spent ∧
        (Output.total spent : ℤ) - Output.total tx.outputs = amount := by
  unfold fee
  rw [bind_eq_ok_iff]
  simp only [mapM_eq_ok_iff, pure, Except.pure, Except.ok.injEq]

theorem verifyInputs_eq_ok_true_iff {indices : List ℕ} :
    (tx.verifyInputs fetch indices).value = .ok true ↔
      ∀ i ∈ indices, (tx.verifyInput i fetch).map (·.value) = .ok true := by
  induction indices with
  | nil => simp [verifyInputs, Logged.silent]
  | cons i rest ih =>
    rw [List.forall_mem_cons, ← ih, verifyInputs]
    rcases tx.verifyInput i fetch with e | ⟨log, _ | _⟩ <;>
      simp [Except.map, Logged.silent, Logged.after]

/-- A transaction is good if its fee is not negative and each of its inputs may spend its output. -/
theorem verify_eq_ok_true_iff :
    (tx.verify fetch).value = .ok true ↔ (∃ amount : ℕ, tx.fee fetch = .ok (amount : ℤ)) ∧
      ∀ i < tx.inputs.length, (tx.verifyInput i fetch).map (·.value) = .ok true := by
  unfold verify
  cases tx.fee fetch with
  | error e => simp [Logged.silent]
  | ok amount =>
    have hnatural : (∃ n : ℕ, (.ok amount : Except Error ℤ) = .ok (n : ℤ)) ↔ ¬ amount < 0 := by
      constructor
      · rintro ⟨n, hn⟩
        rw [Except.ok.inj hn]
        exact not_lt.mpr (Int.natCast_nonneg n)
      · intro hamount
        obtain ⟨n, rfl⟩ := Int.eq_ofNat_of_zero_le (not_lt.mp hamount)
        exact ⟨n, rfl⟩
    simp only
    rw [hnatural]
    split
    · next hnegative => simp [hnegative]
    · next hamount =>
      rw [verifyInputs_eq_ok_true_iff]
      simp only [List.mem_range, hamount, not_false_eq_true, true_and]

end Transaction

end CoinSpend
