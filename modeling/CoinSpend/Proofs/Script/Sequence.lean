import CoinSpend.Proofs.Script.Block
import Mathlib

/-!
# One script behind another

A scan for the branches of a conditional looks ahead over the seam between two scripts. It finds no
end in a balanced script, so a conditional that the first script leaves open fails there as it does
without the second script, and a conditional that is complete is run without it.

Results:
* `Script.IsBalanced.endsNone`: no conditional of another script ends in a balanced one.
* `Script.run_append_balanced`: the second script runs on the stacks that the first one leaves.
-/

namespace CoinSpend.Script

variable {ctx : Context} {first second : Script}

/-- No conditional that starts before a balanced script ends in it. -/
theorem IsBalanced.endsNone {script : Script} (h : script.IsBalanced) :
    Branches.EndsNone script := by
  obtain ⟨b, rfl⟩ := isBalanced_iff.mp h
  intro depth
  have hscan := b.split_flatten depth []
  rw [List.append_nil] at hscan
  exact hscan

/-- What runs to its end is balanced. -/
theorem isBalanced_of_runFrom {script : Script} {s t : Stack}
    (h : (script.runFrom ctx s).value = .ok t) : script.IsBalanced := by
  rw [runFrom_value] at h
  exact isBalanced_iff.mpr (exists_flatten_of_exec h)

/-- A program whose second part is balanced runs the first part, and then the second part on the
stacks that are left, unless it ends in the spend of a script hash. It fails if the first part does,
as it must if that leaves a conditional open. -/
theorem run_append_balanced (ctx : Context) (hsecond : second.IsBalanced)
    (hspend : ¬ (first ++ second).EndsInSpend) :
    ((first ++ second).run ctx).value =
        (first.runFrom ctx Stack.empty).value >>= (fun s => (second.runFrom ctx s).value) ∧
      (((first ++ second).evaluate ctx).value = true ↔
        ∃ s top rest alt, (first.runFrom ctx Stack.empty).value = .ok s ∧
          (second.runFrom ctx s).value = .ok ⟨top :: rest, alt⟩ ∧ top ≠ []) ∧
      (¬ first.IsBalanced → ((first ++ second).evaluate ctx).value = false) := by
  have hrun : ((first ++ second).run ctx).value =
      (first.runFrom ctx Stack.empty).value >>= fun s => (second.runFrom ctx s).value := by
    simp only [runFrom_value]
    rw [run_eq_exec hspend, exec_append hsecond.endsNone]
  have hevaluate : ((first ++ second).evaluate ctx).value = true ↔
      ∃ s top rest alt, (first.runFrom ctx Stack.empty).value = .ok s ∧
        (second.runFrom ctx s).value = .ok ⟨top :: rest, alt⟩ ∧ top ≠ [] := by
    rw [evaluate_iff, hrun]
    simp only [bind_eq_ok_iff]
    constructor
    · rintro ⟨top, rest, alt, ⟨s, hfirst, htop⟩, hne⟩
      exact ⟨s, top, rest, alt, hfirst, htop, hne⟩
    · rintro ⟨s, top, rest, alt, hfirst, htop, hne⟩
      exact ⟨top, rest, alt, ⟨s, hfirst, htop⟩, hne⟩
  refine ⟨hrun, hevaluate, fun hopen => ?_⟩
  rw [← Bool.not_eq_true, hevaluate]
  rintro ⟨s, _, _, _, hfirst, -⟩
  exact hopen (isBalanced_of_runFrom hfirst)

theorem isPlain_toAltStack : (Instruction.op 0x6b).isPlain := rfl

theorem isPlain_fromAltStack : (Instruction.op 0x6c).isPlain := rfl

/-- A conditional in front, whose branch leaves an element on the alternative stack. -/
def unlockingBranch : Block :=
  .plain (.push [1]) <| .conditional true
    (.plain (.push [7]) <| .plain ⟨.op 0x6b, isPlain_toAltStack⟩ .nil)
    (.cons (.plain .opReturn .nil) .nil) <| .plain (.push []) .nil

/-- A conditional behind it, which takes the other branch. -/
def lockingBranch : Block :=
  .conditional true (.plain .opReturn .nil)
    (.cons (.plain ⟨.op 0x6c, isPlain_fromAltStack⟩ .nil) .nil) .nil

theorem run_unlockingBranch_append_lockingBranch :
    lockingBranch.flatten.IsBalanced ∧
      ¬ (unlockingBranch.flatten ++ lockingBranch.flatten).EndsInSpend ∧
      (unlockingBranch.flatten.runFrom (.plain 0) Stack.empty).value = .ok ⟨[[]], [[7]]⟩ ∧
      ((unlockingBranch.flatten ++ lockingBranch.flatten).run (.plain 0)).value =
        .ok ⟨[[7]], []⟩ := by
  have hspend : ¬ (unlockingBranch.flatten ++ lockingBranch.flatten).EndsInSpend := fun h =>
    absurd h.getLast? (by decide)
  have hbalanced : lockingBranch.flatten.IsBalanced := by decide
  have hfirst : (unlockingBranch.flatten.runFrom (.plain 0) Stack.empty).value =
      .ok ⟨[[]], [[7]]⟩ := by
    rw [runFrom_value, unlockingBranch.exec_flatten]
    rfl
  have hsecond : (lockingBranch.flatten.runFrom (.plain 0) ⟨[[]], [[7]]⟩).value =
      .ok ⟨[[7]], []⟩ := by
    rw [runFrom_value, lockingBranch.exec_flatten]
    rfl
  obtain ⟨hrun, -⟩ := run_append_balanced (.plain 0) hbalanced hspend
  rw [hfirst, ok_bind, hsecond] at hrun
  exact ⟨hbalanced, hspend, hfirst, hrun⟩

end CoinSpend.Script
