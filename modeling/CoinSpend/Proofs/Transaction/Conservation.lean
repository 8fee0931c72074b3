import CoinSpend.Proofs.Script.Exec
import CoinSpend.Proofs.Transaction.SigHash
import CoinSpend.Proofs.Transaction.Verify
import Mathlib

/-!
# What a good transaction pays out

The fee counts an output once for each input that spends it. So a good transaction pays out no more
than its inputs spend one by one, but it may spend the same output twice and pay out what is not
there.

Results:
* `Transaction.total_spent`: the amounts of the inputs, one by one.
* `Transaction.verify_conserves`: which good transactions pay out no more than the outputs that they
  spend.
-/

namespace CoinSpend

open scoped BigOperators

/-- The place of an output: its transaction and its index there. -/
structure Outpoint where
  txId : FixedBytes 32
  index : UInt32
deriving DecidableEq

/-- The place of the output that an input spends. -/
def Input.outpoint (input : Input) : Outpoint := ⟨input.prevId, input.prevIndex⟩

/-- The amount at a place, which is zero if there is no output. -/
def Outpoint.amount (fetch : Fetcher) (testnet : Bool) (outpoint : Outpoint) : ℕ :=
  match fetch outpoint.txId testnet with
  | .error _ => 0
  | .ok tx => (tx.outputs[outpoint.index.toNat]?.map (·.amount.toNat)).getD 0

namespace Transaction

/-- The places of the outputs that the inputs spend, in their order. -/
def outpoints (tx : Transaction) : List Outpoint := tx.inputs.map Input.outpoint

/-- The amount of the spent outputs, each counted once. -/
def distinctAmount (tx : Transaction) (fetch : Fetcher) : ℕ :=
  ∑ outpoint ∈ tx.outpoints.toFinset, outpoint.amount fetch tx.testnet

/-- The amount that is counted again, for outputs that further inputs spend. -/
def recountedAmount (tx : Transaction) (fetch : Fetcher) : ℕ :=
  ∑ outpoint ∈ tx.outpoints.toFinset,
    (tx.outpoints.count outpoint - 1) * outpoint.amount fetch tx.testnet

variable {tx : Transaction} {fetch : Fetcher}

theorem amount_of_spent {input : Input} {output : Output} {testnet : Bool}
    (h : input.spent fetch testnet = .ok output) :
    input.outpoint.amount fetch testnet = output.amount.toNat := by
  unfold Input.spent at h
  unfold Outpoint.amount Input.outpoint
  obtain ⟨tx, htx, h⟩ := bind_eq_ok_iff.mp h
  cases hget : tx.outputs[input.prevIndex.toNat]? with
  | none => simp [hget] at h
  | some found =>
    rw [hget] at h
    simp [htx, hget, Except.ok.inj h]

/-- All inputs together spend the amounts at their places, one by one. -/
theorem total_spent {inputs : List Input} {spent : List Output} {testnet : Bool}
    (h : List.Forall₂ (fun input output => input.spent fetch testnet = .ok output) inputs spent) :
    Output.total spent = ((inputs.map Input.outpoint).map (Outpoint.amount fetch testnet)).sum := by
  induction h with
  | nil => rfl
  | cons hspent _ ih =>
    rw [Output.total, ih, List.map_cons, List.map_cons, List.sum_cons, amount_of_spent hspent]

/-- One by one, the places have the amount of each place once, and what is counted again. -/
theorem sum_amount_outpoints (tx : Transaction) (fetch : Fetcher) :
    (tx.outpoints.map (Outpoint.amount fetch tx.testnet)).sum =
      tx.distinctAmount fetch + tx.recountedAmount fetch := by
  unfold distinctAmount recountedAmount
  rw [Finset.sum_list_map_count, ← Finset.sum_add_distrib]
  apply Finset.sum_congr rfl
  intro outpoint hmem
  have hcount : 0 < tx.outpoints.count outpoint :=
    List.count_pos_iff.mpr (List.mem_toFinset.mp hmem)
  calc tx.outpoints.count outpoint • outpoint.amount fetch tx.testnet
      = (1 + (tx.outpoints.count outpoint - 1)) * outpoint.amount fetch tx.testnet := by
        rw [smul_eq_mul, Nat.add_sub_cancel' hcount]
    _ = _ := by rw [add_mul, one_mul]

/-- Nothing is counted again if no two inputs spend the same output. -/
theorem recountedAmount_of_nodup (h : tx.outpoints.Nodup) (fetch : Fetcher) :
    tx.recountedAmount fetch = 0 := by
  unfold recountedAmount
  apply Finset.sum_eq_zero
  intro outpoint hmem
  rw [List.count_eq_one_of_mem h (List.mem_toFinset.mp hmem), Nat.sub_self, zero_mul]

/-- A good transaction has a fee that accounts for all amounts. It pays out no more than the outputs
that it spends exactly if the fee makes up for the outputs that are spent again, which it does if no
output is. -/
theorem verify_conserves (h : (tx.verify fetch).value = .ok true) :
    ∃ amount : ℕ, tx.fee fetch = .ok (amount : ℤ) ∧
      Output.total tx.outputs + amount = tx.distinctAmount fetch + tx.recountedAmount fetch ∧
      (Output.total tx.outputs ≤ tx.distinctAmount fetch ↔ tx.recountedAmount fetch ≤ amount) ∧
      (tx.outpoints.Nodup → Output.total tx.outputs ≤ tx.distinctAmount fetch) := by
  obtain ⟨⟨amount, hamount⟩, -⟩ := verify_eq_ok_true_iff.mp h
  obtain ⟨spent, hspent, hfee⟩ := fee_eq_ok_iff.mp hamount
  have htotal : Output.total spent = tx.distinctAmount fetch + tx.recountedAmount fetch :=
    (total_spent hspent).trans (sum_amount_outpoints tx fetch)
  have hbalance : Output.total tx.outputs + amount =
      tx.distinctAmount fetch + tx.recountedAmount fetch := by
    omega
  refine ⟨amount, hamount, hbalance, by omega, ?_⟩
  intro hnodup
  have hzero := recountedAmount_of_nodup hnodup fetch
  omega

/-! What is paid to a script that asks for nothing is spent by the given number of inputs. -/

def toAnyone : Transaction := ⟨1, [], [⟨100000, [.push [1]]⟩], 0, false⟩

def fromAnyone (count : ℕ) (amount : UInt64) : Transaction :=
  ⟨1, List.replicate count ⟨.replicate 32 0x11, 0, [], finalSequence⟩,
    [⟨amount, [.push [1]]⟩], 0, false⟩

theorem evaluate_anyone (ctx : Context) : (Script.evaluate ctx [.push [1]]).value = true := by
  have hspend : ¬ Script.EndsInSpend [.push [1]] := fun h => absurd h.getLast? (by decide)
  rw [Script.evaluate_iff, Script.run_eq_exec hspend]
  refine ⟨[1], [], [], ?_, by decide⟩
  rw [Script.exec_plain_eq_ok_iff rfl]
  exact ⟨_, rfl, Script.exec_nil _⟩

theorem verifyInput_fromAnyone {count index : ℕ} (hindex : index < count) (amount : UInt64) :
    ((fromAnyone count amount).verifyInput index fun _ _ => .ok toAnyone).map (·.value) =
      .ok true := by
  have hwritable : ∀ i ∈ [Instruction.push [1]], i.Writable := by
    rw [List.forall_mem_singleton]
    exact (by decide : 1 ≤ Script.pushLimit)
  have hinput : (fromAnyone count amount).input index =
      .ok ⟨.replicate 32 0x11, 0, [], finalSequence⟩ := by
    rw [input_eq_ok_iff, fromAnyone, List.getElem?_replicate, if_pos hindex]
  have houtputs : ∀ output ∈ (fromAnyone count amount).outputs, ∀ i ∈ output.locking,
      i.Writable := by
    rw [fromAnyone, List.forall_mem_singleton]
    exact hwritable
  obtain ⟨z, hz⟩ := @exists_sigHash_none _ _ (fun _ _ => .ok toAnyone) _ _ hinput rfl hwritable
    houtputs
  rw [verifyInput_of_scriptHash?_eq_none hinput rfl rfl, hz]
  exact congrArg Except.ok (evaluate_anyone _)

theorem verify_fromAnyone_once :
    ((fromAnyone 1 60000).verify fun _ _ => .ok toAnyone).value = .ok true ∧
      Output.total (fromAnyone 1 60000).outputs ≤
        (fromAnyone 1 60000).distinctAmount fun _ _ => .ok toAnyone := by
  have hverify : ((fromAnyone 1 60000).verify fun _ _ => .ok toAnyone).value = .ok true :=
    verify_eq_ok_true_iff.mpr ⟨⟨40000, rfl⟩, fun _ hi => verifyInput_fromAnyone hi 60000⟩
  obtain ⟨_, -, -, -, hconserves⟩ := verify_conserves hverify
  exact ⟨hverify, hconserves (by decide)⟩

/-- Two inputs that spend the same output may pay out twice what is there. -/
theorem verify_fromAnyone_twice :
    ((fromAnyone 2 200000).verify fun _ _ => .ok toAnyone).value = .ok true ∧
      (fromAnyone 2 200000).distinctAmount (fun _ _ => .ok toAnyone) = 100000 ∧
      Output.total (fromAnyone 2 200000).outputs = 200000 :=
  ⟨verify_eq_ok_true_iff.mpr ⟨⟨0, rfl⟩, fun _ hi => verifyInput_fromAnyone hi 200000⟩, rfl, rfl⟩

end Transaction

end CoinSpend
