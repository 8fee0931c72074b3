import CoinSpend.Proofs.Script.Locktime
import CoinSpend.Proofs.Script.Unlimited
import Mathlib

/-!
# Operations do not look below what they use

An operation that succeeds does the same on top of further elements, and leaves these where they
are. This is shown without limits, from the primitives up: a computation on the stacks lifts if each
of its steps does. With limits, only the height of the stacks can make a difference. The number of
elements on the stack is the one thing that cannot be told without looking at all of them.

Results:
* `Lifts`, `Lifts.bind`: computations that succeed alike.
* `Operation.applyUnlimited_above`: an operation on top of further elements.
* `Opcode.execute_above`: the same with limits.
-/

namespace CoinSpend

/-! ## Computations that succeed alike -/

variable {ε α β : Type}

/-- Whenever the first computation succeeds, the second one does, with the image of the result. -/
def Lifts (lift : α → α) (x y : Except ε α) : Prop := ∀ a, x = .ok a → y = .ok (lift a)

namespace Lifts

variable {lift : α → α} {x y : Except ε α}

theorem ok (a : α) : Lifts lift (.ok a : Except ε α) (.ok (lift a)) := by
  rintro _ ⟨⟩
  rfl

theorem error (e : ε) : Lifts lift (.error e) y := by
  rintro _ ⟨⟩

theorem refl (x : Except ε α) : Lifts id x x := fun _ h => h

theorem bind {lift' : β → β} {f g : α → Except ε β} (hx : Lifts lift x y)
    (hf : ∀ a, Lifts lift' (f a) (g (lift a))) : Lifts lift' (x >>= f) (y >>= g) := by
  intro b h
  obtain ⟨a, ha, hb⟩ := bind_eq_ok_iff.mp h
  rw [hx a ha, ok_bind]
  exact hf a b hb

end Lifts

/-! ## Primitives -/

namespace Stack

/-- The stacks with further elements below those of the main one. -/
def above (s : Stack) (base : List Bytes) : Stack := { s with main := s.main ++ base }

/-- A result next to stacks with further elements below. -/
def resultAbove (base : List Bytes) (result : α × Stack) : α × Stack :=
  (result.1, result.2.above base)

variable (s : Stack) (base : List Bytes)

theorem pop_above : Lifts (resultAbove base) s.pop (s.above base).pop := by
  obtain ⟨main, alt⟩ := s
  cases main with
  | nil => exact .error _
  | cons top rest => exact .ok _

theorem popAlt_above : Lifts (resultAbove base) s.popAlt (s.above base).popAlt := by
  obtain ⟨main, alt⟩ := s
  cases alt with
  | nil => exact .error _
  | cons top rest => exact .ok _

theorem popNumber_above : Lifts (resultAbove base) s.popNumber (s.above base).popNumber := by
  refine (s.pop_above base).bind ?_
  rintro ⟨top, t⟩
  exact (Lifts.refl _).bind fun number => .ok _

theorem popMany_above (count : ℕ) :
    Lifts (resultAbove base) (s.popMany count) ((s.above base).popMany count) := by
  unfold popMany above
  by_cases hfew : s.main.length < count
  · rw [if_pos hfew]
    exact .error _
  · have hmore : ¬ (s.main ++ base).length < count := by
      rw [List.length_append]
      omega
    rw [if_neg hfew, if_neg hmore, List.take_append_of_le_length (Nat.le_of_not_lt hfew),
      List.drop_append_of_le_length (Nat.le_of_not_lt hfew)]
    exact .ok _

theorem top_above (depth : ℕ) : Lifts id (s.top depth) ((s.above base).top depth) := by
  unfold top above
  cases h : s.main[depth]? with
  | none => exact .error _
  | some element =>
    have hdepth := (List.getElem?_eq_some_iff.mp h).1
    rw [List.getElem?_append_left hdepth, h]
    exact .ok _

theorem remove_above (depth : ℕ) :
    Lifts (resultAbove base) (s.remove depth) ((s.above base).remove depth) := by
  intro result h
  obtain ⟨element, helement, h⟩ := bind_eq_ok_iff.mp h
  cases h
  have hdepth : depth < s.main.length := by
    unfold top at helement
    split at helement
    · cases helement
    · next h => exact (List.getElem?_eq_some_iff.mp h).1
  unfold remove
  rw [s.top_above base depth element helement, ok_bind]
  unfold resultAbove above
  rw [List.eraseIdx_append_of_lt_length hdepth]
  rfl

theorem verifyTop_above (otherwise : ScriptError) :
    Lifts (above · base) (s.verifyTop otherwise) ((s.above base).verifyTop otherwise) := by
  refine (s.pop_above base).bind ?_
  rintro ⟨top, t⟩
  unfold resultAbove
  dsimp only
  split
  · exact .ok _
  · exact .error _

end Stack

/-! ## Operations -/

/-- A rearrangement moves only the elements that it names. -/
theorem Shuffle.apply_append {kind : Shuffle} {main moved : List Bytes}
    (h : kind.apply main = some moved) (base : List Bytes) :
    kind.apply (main ++ base) = some (moved ++ base) := by
  unfold apply at h
  split at h <;> cases h <;> rfl

namespace Operation

open Stack

variable (ctx : Context) (s : Stack) (base : List Bytes)

theorem sigOperands_above :
    Lifts (resultAbove base) (sigOperands s) (sigOperands (s.above base)) := by
  refine (s.pop_above base).bind ?_
  rintro ⟨key, t⟩
  refine (t.pop_above base).bind ?_
  rintro ⟨signature, u⟩
  exact .ok _

theorem multisigOperands_above :
    Lifts (resultAbove base) (multisigOperands s) (multisigOperands (s.above base)) := by
  refine (s.popNumber_above base).bind ?_
  rintro ⟨keyCount, t⟩
  unfold resultAbove
  dsimp only
  split
  · exact .error _
  · refine (t.popMany_above base _).bind ?_
    rintro ⟨keys, u⟩
    refine (u.popNumber_above base).bind ?_
    rintro ⟨sigCount, v⟩
    unfold resultAbove
    dsimp only
    split
    · exact .error _
    · refine (v.popMany_above base _).bind ?_
      rintro ⟨signatures, w⟩
      refine (w.pop_above base).bind ?_
      rintro ⟨further, x⟩
      exact .ok _

theorem popDepth_above : Lifts (resultAbove base) (popDepth s) (popDepth (s.above base)) := by
  refine (s.popNumber_above base).bind ?_
  rintro ⟨place, t⟩
  unfold resultAbove
  dsimp only
  by_cases hout : place < 0 ∨ t.main.length ≤ place.toNat
  · rw [if_pos hout]
    exact .error _
  · have hin : ¬ (place < 0 ∨ (t.above base).main.length ≤ place.toNat) := by
      unfold above
      rw [List.length_append]
      omega
    rw [if_neg hout, if_neg hin]
    exact .ok _

theorem checkLocktimeOf_above :
    Lifts (above · base) (checkLocktimeOf ctx s) (checkLocktimeOf ctx (s.above base)) := by
  intro t h
  obtain ⟨rfl, top, rest, required, hmain, hnumber, hmeets⟩ := checkLocktimeOf_eq_ok_iff.mp h
  refine checkLocktimeOf_eq_ok_iff.mpr
    ⟨rfl, top, rest ++ base, required, ?_, hnumber, hmeets⟩
  rw [above, hmain, List.cons_append]

theorem checkSequenceOf_above :
    Lifts (above · base) (checkSequenceOf ctx s) (checkSequenceOf ctx (s.above base)) := by
  intro t h
  obtain ⟨rfl, top, rest, required, hmain, hnumber, hmeets⟩ := checkSequenceOf_eq_ok_iff.mp h
  refine checkSequenceOf_eq_ok_iff.mpr
    ⟨rfl, top, rest ++ base, required, ?_, hnumber, hmeets⟩
  rw [above, hmain, List.cons_append]

/-- Whether an operation does not count the elements on the stack. -/
def isLocal : Operation → Bool
  | depth => false
  | verified inner _ => inner.isLocal
  | _ => true

variable {base}

/-- Without limits, an operation that succeeds does the same on top of further elements. -/
theorem applyUnlimited_above {operation : Operation} (h : operation.isLocal = true) :
    Lifts (above · base) (operation.applyUnlimited ctx s)
      (operation.applyUnlimited ctx (s.above base)) := by
  induction operation with
  | constant value => exact .ok _
  | nop => exact .ok _
  | fail => exact .error _
  | toAlt =>
    refine (s.pop_above base).bind ?_
    rintro ⟨top, t⟩
    exact .ok _
  | fromAlt =>
    refine (s.popAlt_above base).bind ?_
    rintro ⟨top, t⟩
    exact .ok _
  | shuffle kind =>
    rw [applyUnlimited, applyUnlimited]
    cases hmoved : kind.apply s.main with
    | none => exact .error _
    | some moved =>
      rw [above, Shuffle.apply_append hmoved base]
      exact .ok _
  | dupIfTrue =>
    refine (s.top_above base 0).bind fun top => ?_
    simp only [id_eq]
    split
    · exact .ok _
    · exact .ok _
  | depth => cases h
  | pick =>
    refine (popDepth_above s base).bind ?_
    rintro ⟨place, t⟩
    exact (t.top_above base place).bind fun element => .ok _
  | roll =>
    refine (popDepth_above s base).bind ?_
    rintro ⟨place, t⟩
    refine (t.remove_above base place).bind ?_
    rintro ⟨element, u⟩
    exact .ok _
  | size => exact (s.top_above base 0).bind fun top => .ok _
  | equal =>
    refine (s.pop_above base).bind ?_
    rintro ⟨b, t⟩
    refine (t.pop_above base).bind ?_
    rintro ⟨a, u⟩
    exact .ok _
  | unary kind =>
    refine (s.popNumber_above base).bind ?_
    rintro ⟨a, t⟩
    exact .ok _
  | binary kind =>
    refine (s.popNumber_above base).bind ?_
    rintro ⟨b, t⟩
    refine (t.popNumber_above base).bind ?_
    rintro ⟨a, u⟩
    exact .ok _
  | within =>
    refine (s.popNumber_above base).bind ?_
    rintro ⟨upper, t⟩
    refine (t.popNumber_above base).bind ?_
    rintro ⟨lower, u⟩
    refine (u.popNumber_above base).bind ?_
    rintro ⟨x, v⟩
    exact .ok _
  | digest kind =>
    refine (s.pop_above base).bind ?_
    rintro ⟨top, t⟩
    exact .ok _
  | checkSig =>
    refine (sigOperands_above s base).bind ?_
    rintro ⟨operands, t⟩
    exact .ok _
  | checkMultisig =>
    refine (multisigOperands_above s base).bind ?_
    rintro ⟨operands, t⟩
    exact .ok _
  | checkLocktime => exact checkLocktimeOf_above ctx s base
  | checkSequence => exact checkSequenceOf_above ctx s base
  | verified inner otherwise ih => exact (ih h).bind fun t => t.verifyTop_above base otherwise

end Operation

/-! ## Opcodes -/

namespace Opcode

/-- Pushes the number of elements. -/
def depth : UInt8 := 0x74

theorem isLocal_of_mem_table :
    ∀ entry ∈ table, entry.code ≠ depth → entry.operation.all Operation.isLocal = true := by
  decide

theorem isLocal_of_operation? {code : UInt8} {operation : Operation} (hcode : code ≠ depth)
    (h : operation? code = some operation) : operation.isLocal = true := by
  obtain ⟨entry, hentry, hoperation⟩ := Option.bind_eq_some_iff.mp h
  have hsame : entry.code = code := by simpa using List.find?_some hentry
  have hlocal := isLocal_of_mem_table entry (List.mem_of_find?_eq_some hentry) (hsame ▸ hcode)
  rwa [hoperation] at hlocal

variable {ctx : Context} {code : UInt8} {s t : Stack} {base : List Bytes}

theorem executeUnlimited_above (hcode : code ≠ depth) (s : Stack) (base : List Bytes) :
    Lifts (Stack.above · base) (executeUnlimited ctx code s)
      (executeUnlimited ctx code (s.above base)) := by
  unfold executeUnlimited
  cases hoperation : operation? code with
  | none => exact .error _
  | some operation =>
    exact Operation.applyUnlimited_above ctx s (isLocal_of_operation? hcode hoperation)

theorem execute_above (hcode : code ≠ depth) (hlimits : (s.above base).WithinLimits)
    (h : execute ctx code s = .ok t) :
    execute ctx code (s.above base) = (t.above base).checkSize := by
  have hs : s.WithinLimits :=
    hlimits.of_sublist (List.sublist_append_left _ _) (List.Sublist.refl _)
  obtain ⟨ht, hshort⟩ := (execute_eq_ok_iff hs).mp h
  rw [execute_eq_enforceLimits code hlimits, executeUnlimited_above hcode s base _ ht, ok_bind]
  have hbase : ∀ element ∈ base, element.length ≤ Stack.elementLimit := fun element helement =>
    hlimits.main element (List.mem_append_right _ helement)
  refine if_pos (List.forall_mem_append.mpr ⟨?_, hshort.alt⟩)
  exact List.forall_mem_append.mpr ⟨hshort.main, hbase⟩

/-- Other than the opcode that counts the elements, an opcode that succeeds on stacks does the same
if there are more elements below those of the main stack, and leaves them as they are, where the
stacks together are within the limits. If they come to more than 1000 elements by that, it fails for
this reason. -/
theorem execute_local (ctx : Context) {code : UInt8} (hcode : code ≠ depth) {s t : Stack}
    {base : List Bytes} (hlimits : Stack.WithinLimits ⟨s.main ++ base, s.alt⟩)
    (h : execute ctx code s = .ok t) : execute ctx code ⟨s.main ++ base, s.alt⟩ =
      if t.main.length + base.length + t.alt.length ≤ 1000 then .ok ⟨t.main ++ base, t.alt⟩
      else .error .stackSize := by
  have hsize : (t.above base).size = t.main.length + base.length + t.alt.length := by
    rw [Stack.size, Stack.above, List.length_append]
  have hexecute := execute_above hcode hlimits h
  rw [Stack.checkSize, hsize] at hexecute
  exact hexecute

theorem withinLimits_append_replicate {main : List Bytes} {count : ℕ}
    (hheight : main.length + count ≤ 1000)
    (hshort : ∀ element ∈ main, element.length ≤ Stack.elementLimit) :
    Stack.WithinLimits ⟨main ++ List.replicate count [], []⟩ := by
  refine ⟨?_, List.forall_mem_append.mpr ⟨hshort, ?_⟩, by simp⟩
  · rw [Stack.size, List.length_append, List.length_replicate]
    exact hheight
  · rintro _ helement
    rw [List.eq_of_mem_replicate helement]
    exact Nat.zero_le _

/-- On full stacks, an element can be moved up, but not copied. -/
theorem execute_local_full :
    Stack.WithinLimits ⟨[[2], [7], [8], [9]] ++ List.replicate 996 [], []⟩ ∧
      execute (.plain 0) 0x7a ⟨[[2], [7], [8], [9]] ++ List.replicate 996 [], []⟩ =
        .ok ⟨[[9], [7], [8]] ++ List.replicate 996 [], []⟩ ∧
      Stack.WithinLimits ⟨[[7]] ++ List.replicate 999 [], []⟩ ∧
      execute (.plain 0) dup ⟨[[7]] ++ List.replicate 999 [], []⟩ = .error .stackSize := by
  have hroll : execute (.plain 0) 0x7a ⟨[[2], [7], [8], [9]], []⟩ = .ok ⟨[[9], [7], [8]], []⟩ :=
    rfl
  have hdup : execute (.plain 0) dup ⟨[[7]], []⟩ = .ok ⟨[[7], [7]], []⟩ := rfl
  have hlimits : Stack.WithinLimits ⟨[[2], [7], [8], [9]] ++ List.replicate 996 [], []⟩ :=
    withinLimits_append_replicate (by decide) (by decide)
  have hlimits' : Stack.WithinLimits ⟨[[7]] ++ List.replicate 999 [], []⟩ :=
    withinLimits_append_replicate (by decide) (by decide)
  refine ⟨hlimits, ?_, hlimits', ?_⟩
  · rw [execute_local (.plain 0) (by decide) hlimits hroll, List.length_replicate]
    rfl
  · rw [execute_local (.plain 0) (by decide) hlimits' hdup, List.length_replicate]
    rfl

end Opcode

end CoinSpend
