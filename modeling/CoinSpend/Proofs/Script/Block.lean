import CoinSpend.Proofs.Script.Exec
import Mathlib

/-!
# Structured conditionals

A block is a sequence of plain instructions and of conditionals whose branches are blocks again. The
run of its flat form follows the tree: one branch of each conditional is run, chosen by the element
on top. Branches that are not run are only scanned, yet a script that is no block never succeeds,
since what a scan passes over is a block itself.

Results:
* `Block.split_flatten`: a scan passes over a block.
* `Block.exec_flatten`: the flat form of a block runs as its tree does.
* `Script.isBalanced_iff`: the scripts that end what they start, and nothing else, are the blocks.
* `exists_flatten_of_exec`: what can be run to its end is a block.
* `Script.run_block_and_evaluate_not_block`: runs of programs, block or not.
-/

namespace CoinSpend

open Instruction (terminator)

/-- An instruction that is no part of a conditional. -/
abbrev PlainInstruction := { i : Instruction // i.isPlain = true }

def PlainInstruction.push (data : Bytes) : PlainInstruction := ⟨.push data, rfl⟩

/-- The opcode that fails. -/
def PlainInstruction.opReturn : PlainInstruction := ⟨.op 0x6a, rfl⟩

/-- The instruction that starts a conditional, whose first branch is for the expected truth value
of the element on top. -/
def Instruction.opener (expected : Bool) : Instruction :=
  .op (if expected then Opcode.ifTrue else Opcode.ifFalse)

open Instruction (opener)

mutual

/-- Plain instructions and whole conditionals in order. -/
inductive Block where
  | nil
  | plain (i : PlainInstruction) (rest : Block)
  | conditional (expected : Bool) (first : Block) (others : Alternatives) (rest : Block)

/-- The branches of a conditional behind the first one. -/
inductive Alternatives where
  | nil
  | cons (branch : Block) (rest : Alternatives)

end

/-! ## Flat form and meaning -/

mutual

/-- The instructions of a block. -/
def Block.flatten : Block → Script
  | .nil => []
  | .plain i rest => i.val :: rest.flatten
  | .conditional expected first others rest =>
    opener expected :: (first.flatten ++ (others.flatten ++ terminator true :: rest.flatten))

/-- The instructions of branches, each behind its separator. -/
def Alternatives.flatten : Alternatives → Script
  | .nil => []
  | .cons branch rest => terminator false :: (branch.flatten ++ rest.flatten)

end

/-- The number of branches behind the first one. -/
def Alternatives.count : Alternatives → ℕ
  | .nil => 0
  | .cons _ rest => rest.count + 1

/-- The instructions of the second branch of a conditional, which may be missing. -/
def Alternatives.head : Alternatives → Script
  | .nil => []
  | .cons branch _ => branch.flatten

mutual

/-- The stacks after a block. A conditional with more than two branches fails before it looks at
the stack. -/
def Block.exec (ctx : Context) : Block → Stack → Except Failure Stack
  | .nil, s => .ok s
  | .plain i rest, s => i.val.exec ctx s >>= fun s => rest.exec ctx s
  | .conditional expected first others rest, s =>
    if 2 ≤ others.count then .error ⟨.unbalancedConditional, (opener expected).code?⟩
    else (opener expected).blame s.pop >>= fun (condition, s) =>
      (if ScriptNumber.isTrue condition = expected then first.exec ctx s
        else others.exec ctx s) >>= fun s => rest.exec ctx s

/-- The stacks after the second branch of a conditional. -/
def Alternatives.exec (ctx : Context) : Alternatives → Stack → Except Failure Stack
  | .nil, s => .ok s
  | .cons branch _, s => branch.exec ctx s

end

@[simp] theorem opens_opener (expected : Bool) : (opener expected).opens = true := by
  cases expected <;> rfl

theorem isOp_opener (expected : Bool) : (opener expected).isOp Opcode.ifTrue = expected := by
  cases expected <;> rfl

theorem eq_opener_of_opens {i : Instruction} (h : i.opens = true) :
    ∃ expected, i = opener expected := by
  rw [Instruction.opens, Bool.or_eq_true] at h
  rcases h with h | h
  · exact ⟨true, Instruction.eq_op_of_isOp h⟩
  · exact ⟨false, Instruction.eq_op_of_isOp h⟩

/-! ## Scanning a block -/

open Branches (split prepend split_plain split_opens split_succ_endIf split_succ_otherwise
  split_zero_terminator prepend_append prepend_nil prepend_some)

mutual

/-- A scan passes over a block, at any depth. -/
theorem Block.split_flatten (b : Block) (depth : ℕ) (tail : Script) :
    split depth (b.flatten ++ tail) = prepend b.flatten (split depth tail) := by
  cases b with
  | nil => rw [Block.flatten, List.nil_append, prepend_nil]
  | plain i rest =>
    rw [Block.flatten, List.cons_append, split_plain i.property, rest.split_flatten,
      ← prepend_append, List.singleton_append]
  | conditional expected first others rest =>
    simp only [Block.flatten, List.cons_append, List.append_assoc]
    rw [split_opens (opens_opener expected), first.split_flatten, others.split_flatten,
      split_succ_endIf, rest.split_flatten]
    simp only [← prepend_append, List.cons_append, List.nil_append]

/-- A scan passes over the separators of inner conditionals. -/
theorem Alternatives.split_flatten (others : Alternatives) (depth : ℕ) (tail : Script) :
    split (depth + 1) (others.flatten ++ tail) =
      prepend others.flatten (split (depth + 1) tail) := by
  cases others with
  | nil => rw [Alternatives.flatten, List.nil_append, prepend_nil]
  | cons branch rest =>
    simp only [Alternatives.flatten, List.cons_append, List.append_assoc]
    rw [split_succ_otherwise, branch.split_flatten, rest.split_flatten]
    simp only [← prepend_append, List.cons_append, List.nil_append]

end

theorem Block.split_zero_flatten (b : Block) (ended : Bool) (tail : Script) :
    split 0 (b.flatten ++ terminator ended :: tail) = some (b.flatten, ended, tail) := by
  rw [b.split_flatten, split_zero_terminator, prepend_some, List.append_nil]

/-- The branches of a conditional with at most two of them are found. -/
theorem find?_flatten (first : Block) (others : Alternatives) (after : Script)
    (h : others.count < 2) :
    ∃ b, Branches.find? (first.flatten ++ (others.flatten ++ terminator true :: after)) = some b ∧
      b.first = first.flatten ∧ b.second = others.head ∧ b.after = after := by
  unfold Branches.find?
  match others, h with
  | .nil, _ =>
    rw [Alternatives.flatten, List.nil_append, first.split_zero_flatten]
    exact ⟨_, rfl, rfl, rfl, rfl⟩
  | .cons second .nil, _ =>
    simp only [Alternatives.flatten, List.append_nil, List.cons_append,
      first.split_zero_flatten, second.split_zero_flatten]
    exact ⟨_, rfl, rfl, rfl, rfl⟩
  | .cons _ (.cons _ more), h => simp only [Alternatives.count] at h; omega

/-- A conditional with more than two branches is refused. -/
theorem find?_flatten_eq_none (first : Block) (others : Alternatives) (after : Script)
    (h : 2 ≤ others.count) :
    Branches.find? (first.flatten ++ (others.flatten ++ terminator true :: after)) = none := by
  unfold Branches.find?
  match others, h with
  | .cons second (.cons third more), _ =>
    simp only [Alternatives.flatten, List.append_assoc, List.cons_append,
      first.split_zero_flatten, second.split_zero_flatten]
  | .nil, h => simp [Alternatives.count] at h
  | .cons _ .nil, h => simp [Alternatives.count] at h

/-! ## Running a block -/

section Run

variable {ctx : Context}

mutual

/-- The flat form of a block runs as its tree does. -/
theorem Block.exec_flatten (b : Block) (s : Stack) :
    Script.exec ctx b.flatten s = b.exec ctx s := by
  cases b with
  | nil => rw [Block.flatten, Script.exec_nil, Block.exec]
  | plain i rest =>
    rw [Block.flatten, Script.exec_plain i.property, Block.exec]
    congr 1
    funext s
    exact rest.exec_flatten s
  | conditional expected first others rest =>
    rw [Block.flatten, Block.exec]
    split
    · next hcount =>
      exact Script.exec_unbalanced (opens_opener expected)
        (find?_flatten_eq_none first others rest.flatten hcount) s
    · next hcount =>
      obtain ⟨b, hfind, hfirst, hsecond, hafter⟩ :=
        find?_flatten first others rest.flatten (Nat.lt_of_not_le hcount)
      rw [Script.exec_conditional (opens_opener expected) hfind, isOp_opener]
      cases (opener expected).blame s.pop with
      | error failure => rfl
      | ok popped =>
        obtain ⟨condition, s⟩ := popped
        have hrest : Script.exec ctx b.after = fun s => rest.exec ctx s := by
          rw [hafter]
          exact funext fun s => rest.exec_flatten s
        simp only [ok_bind, hrest, Branches.choose, decide_eq_true_eq]
        split
        · rw [hfirst, first.exec_flatten]
        · rw [hsecond, others.exec_head]

/-- The second branch of a conditional runs as its tree does. -/
theorem Alternatives.exec_head (others : Alternatives) (s : Stack) :
    Script.exec ctx others.head s = others.exec ctx s := by
  cases others with
  | nil => rw [Alternatives.head, Script.exec_nil, Alternatives.exec]
  | cons branch rest => rw [Alternatives.head, Alternatives.exec, branch.exec_flatten]

end

end Run

/-! ## Counting -/

namespace Script

/-- How many conditionals are open behind the script if `depth` of them are open before it. There is
no such number if an instruction separates or ends a conditional where none is open. -/
def openAfter? : ℕ → Script → Option ℕ
  | depth, [] => some depth
  | depth, i :: rest =>
    if i.opens then openAfter? (depth + 1) rest
    else if i.separates || i.closes then
      match depth with
      | 0 => none
      | depth + 1 => openAfter? (if i.closes then depth else depth + 1) rest
    else openAfter? depth rest

/-- Each separator and each end is of a conditional that the script starts, and each of those ends
in the script. -/
def IsBalanced (script : Script) : Prop := script.openAfter? 0 = some 0

instance (script : Script) : Decidable script.IsBalanced :=
  inferInstanceAs (Decidable (script.openAfter? 0 = some 0))

theorem openAfter?_plain {i : Instruction} (h : i.isPlain = true) (depth : ℕ) (rest : Script) :
    openAfter? depth (i :: rest) = openAfter? depth rest := by
  obtain ⟨hopens, hseparates, hcloses⟩ := Instruction.isPlain_iff.mp h
  conv_lhs => unfold openAfter?
  simp only [hopens, hseparates, hcloses, Bool.or_false, Bool.false_eq_true, if_false]

theorem openAfter?_opens {i : Instruction} (h : i.opens = true) (depth : ℕ) (rest : Script) :
    openAfter? depth (i :: rest) = openAfter? (depth + 1) rest := by
  conv_lhs => unfold openAfter?
  rw [if_pos h]

theorem openAfter?_zero_terminator (ended : Bool) (rest : Script) :
    openAfter? 0 (terminator ended :: rest) = none := by
  cases ended <;> rfl

theorem openAfter?_succ_endIf (depth : ℕ) (rest : Script) :
    openAfter? (depth + 1) (terminator true :: rest) = openAfter? depth rest := rfl

theorem openAfter?_succ_otherwise (depth : ℕ) (rest : Script) :
    openAfter? (depth + 1) (terminator false :: rest) = openAfter? (depth + 1) rest := rfl

/-- What a scan collects closes the conditionals that are open before it. -/
theorem openAfter?_of_split {depth : ℕ} {script body rest : Script} {ended : Bool}
    (h : split depth script = some (body, ended, rest)) : openAfter? depth body = some 0 := by
  induction script generalizing depth body with
  | nil => simp [split] at h
  | cons i script ih =>
    rcases i.kind with hplain | hopens | ⟨ended', rfl⟩
    · rw [split_plain hplain] at h
      obtain ⟨body', hsplit, rfl⟩ := Branches.prepend_eq_some_iff.mp h
      exact (openAfter?_plain hplain depth body').trans (ih hsplit)
    · rw [split_opens hopens] at h
      obtain ⟨body', hsplit, rfl⟩ := Branches.prepend_eq_some_iff.mp h
      exact (openAfter?_opens hopens depth body').trans (ih hsplit)
    · cases depth with
      | zero =>
        rw [split_zero_terminator] at h
        cases h
        rfl
      | succ depth =>
        cases ended' with
        | true =>
          rw [split_succ_endIf] at h
          obtain ⟨body', hsplit, rfl⟩ := Branches.prepend_eq_some_iff.mp h
          exact (openAfter?_succ_endIf depth body').trans (ih hsplit)
        | false =>
          rw [split_succ_otherwise] at h
          obtain ⟨body', hsplit, rfl⟩ := Branches.prepend_eq_some_iff.mp h
          exact (openAfter?_succ_otherwise depth body').trans (ih hsplit)

end Script

open Script (openAfter? openAfter?_plain openAfter?_opens openAfter?_zero_terminator
  openAfter?_succ_endIf openAfter?_succ_otherwise openAfter?_of_split)

mutual

/-- A block leaves as many conditionals open as there are before it. -/
theorem Block.openAfter?_flatten (b : Block) (depth : ℕ) (tail : Script) :
    openAfter? depth (b.flatten ++ tail) = openAfter? depth tail := by
  cases b with
  | nil => rw [Block.flatten, List.nil_append]
  | plain i rest =>
    rw [Block.flatten, List.cons_append, openAfter?_plain i.property, rest.openAfter?_flatten]
  | conditional expected first others rest =>
    simp only [Block.flatten, List.cons_append, List.append_assoc]
    rw [openAfter?_opens (opens_opener expected), first.openAfter?_flatten,
      others.openAfter?_flatten, openAfter?_succ_endIf, rest.openAfter?_flatten]

theorem Alternatives.openAfter?_flatten (others : Alternatives) (depth : ℕ) (tail : Script) :
    openAfter? (depth + 1) (others.flatten ++ tail) = openAfter? (depth + 1) tail := by
  cases others with
  | nil => rw [Alternatives.flatten, List.nil_append]
  | cons branch rest =>
    simp only [Alternatives.flatten, List.cons_append, List.append_assoc]
    rw [openAfter?_succ_otherwise, branch.openAfter?_flatten, rest.openAfter?_flatten]

end

/-! ## What is no block -/

/-- Whether the script leaves the given number of conditionals, which start before it, and is a
block behind the last of their ends. -/
def Closes : ℕ → Script → Prop
  | 0, script => ∃ b : Block, b.flatten = script
  | depth + 1, script => ∃ (b : Block) (others : Alternatives) (rest : Script),
      script = b.flatten ++ (others.flatten ++ terminator true :: rest) ∧ Closes depth rest

/-- What can be put in front of a block can be put in front of such a script. -/
theorem Closes.append {front script : Script} {depth : ℕ}
    (hfront : ∀ b : Block, ∃ b' : Block, b'.flatten = front ++ b.flatten)
    (h : Closes depth script) : Closes depth (front ++ script) := by
  cases depth with
  | zero =>
    obtain ⟨b, rfl⟩ := h
    exact hfront b
  | succ depth =>
    obtain ⟨b, others, rest, rfl, hrest⟩ := h
    obtain ⟨b', hb'⟩ := hfront b
    exact ⟨b', others, rest, by rw [hb', List.append_assoc], hrest⟩

/-- A script behind which none of the open conditionals is open leaves them. -/
theorem closes_of_openAfter? {depth : ℕ} {script : Script} (h : openAfter? depth script = some 0) :
    Closes depth script := by
  -- an instruction that opens a conditional asks for one more level of what stands behind it
  induction script generalizing depth with
  | nil =>
    obtain rfl : depth = 0 := Option.some.inj h
    exact ⟨.nil, rfl⟩
  | cons i rest ih =>
    rcases i.kind with hplain | hopens | ⟨ended, rfl⟩
    · rw [openAfter?_plain hplain] at h
      have hfront : ∀ b : Block, ∃ b' : Block, b'.flatten = [i] ++ b.flatten :=
        fun b => ⟨.plain ⟨i, hplain⟩ b, rfl⟩
      exact (ih h).append hfront
    · obtain ⟨expected, rfl⟩ := eq_opener_of_opens hopens
      rw [openAfter?_opens hopens] at h
      obtain ⟨first, others, rest', rfl, hrest⟩ := ih h
      have hfront : ∀ b : Block, ∃ b' : Block, b'.flatten = (opener expected ::
          (first.flatten ++ (others.flatten ++ [terminator true]))) ++ b.flatten :=
        fun b => ⟨.conditional expected first others b, by simp [Block.flatten]⟩
      simpa using hrest.append hfront
    · cases depth with
      | zero =>
        rw [openAfter?_zero_terminator] at h
        cases h
      | succ depth =>
        cases ended with
        | true =>
          rw [openAfter?_succ_endIf] at h
          exact ⟨.nil, .nil, rest, rfl, ih h⟩
        | false =>
          rw [openAfter?_succ_otherwise] at h
          obtain ⟨b, others, rest', rfl, hrest⟩ := ih h
          exact ⟨.nil, .cons b others, rest', by simp [Block.flatten, Alternatives.flatten], hrest⟩

/-- The balanced scripts are the blocks. -/
theorem Script.isBalanced_iff {script : Script} :
    script.IsBalanced ↔ ∃ b : Block, b.flatten = script := by
  constructor
  · exact closes_of_openAfter?
  · rintro ⟨b, rfl⟩
    have hcount := b.openAfter?_flatten 0 []
    rw [List.append_nil] at hcount
    exact hcount

theorem exists_flatten_of_split {script body rest : Script} {ended : Bool}
    (h : split 0 script = some (body, ended, rest)) : ∃ b : Block, b.flatten = body :=
  Script.isBalanced_iff.mp (openAfter?_of_split h)

/-- The branches of a complete conditional are blocks. -/
theorem eq_flatten_of_find? {body : Script} {b : Branches} (h : Branches.find? body = some b) :
    ∃ (first : Block) (others : Alternatives),
      body = first.flatten ++ (others.flatten ++ terminator true :: b.after) := by
  unfold Branches.find? at h
  split at h
  · simp at h
  · next hsplit =>
    cases h
    obtain ⟨first, rfl⟩ := exists_flatten_of_split hsplit
    exact ⟨first, .nil, Branches.eq_append_of_split hsplit⟩
  · next rest hsplit =>
    split at h
    · next hrest =>
      cases h
      obtain ⟨first, rfl⟩ := exists_flatten_of_split hsplit
      obtain ⟨second, rfl⟩ := exists_flatten_of_split hrest
      refine ⟨first, .cons second .nil, ?_⟩
      rw [Branches.eq_append_of_split hsplit, Branches.eq_append_of_split hrest]
      simp [Alternatives.flatten]
    · simp at h

/-- What can be run to its end is a block. -/
theorem exists_flatten_of_exec {ctx : Context} {script : Script} {s t : Stack}
    (h : script.exec ctx s = .ok t) : ∃ b : Block, b.flatten = script := by
  -- the branches are blocks by the scan alone, what stands behind them by induction
  induction hn : script.length using Nat.strong_induction_on generalizing script s with
  | _ n ih =>
  subst hn
  cases script with
  | nil => exact ⟨.nil, rfl⟩
  | cons i rest =>
    rcases i.kind with hplain | hopens | ⟨ended, rfl⟩
    · rw [Script.exec_plain hplain] at h
      obtain ⟨s', -, hrest⟩ := bind_eq_ok_iff.mp h
      obtain ⟨b, rfl⟩ := ih rest.length (by simp) hrest rfl
      exact ⟨.plain ⟨i, hplain⟩ b, rfl⟩
    · cases hfind : Branches.find? rest with
      | none =>
        rw [Script.exec_unbalanced hopens hfind] at h
        simp at h
      | some b =>
        rw [Script.exec_conditional hopens hfind] at h
        obtain ⟨popped, -, h⟩ := bind_eq_ok_iff.mp h
        obtain ⟨s', -, hafter⟩ := bind_eq_ok_iff.mp h
        have hlength := Branches.length_find? hfind
        obtain ⟨after, hflatten⟩ := ih b.after.length (by rw [List.length_cons]; omega) hafter rfl
        obtain ⟨expected, rfl⟩ := eq_opener_of_opens hopens
        obtain ⟨first, others, rfl⟩ := eq_flatten_of_find? hfind
        exact ⟨.conditional expected first others after, by rw [Block.flatten, hflatten]⟩
    · rw [Script.exec_terminator] at h
      simp at h

/-! ## Programs -/

namespace Script

/-- A program that is a block runs as its tree does, and succeeds if an element with a byte is on
top at the end. A program that is no block fails. Both hold unless the program ends in the spend of
a script hash. -/
theorem run_block_and_evaluate_not_block (ctx : Context) {program : Script}
    (h : ¬ program.EndsInSpend) :
    (∀ b : Block, b.flatten = program →
      (program.run ctx).value = b.exec ctx Stack.empty ∧
        ((program.evaluate ctx).value = true ↔
          ∃ top rest alt, b.exec ctx Stack.empty = .ok ⟨top :: rest, alt⟩ ∧ top ≠ [])) ∧
      ((¬ ∃ b : Block, b.flatten = program) → (program.evaluate ctx).value = false) := by
  rw [← Bool.not_eq_true, evaluate_iff, run_eq_exec h]
  constructor
  · rintro b rfl
    rw [b.exec_flatten]
    exact ⟨rfl, Iff.rfl⟩
  · rintro hblock ⟨top, rest, alt, hexec, -⟩
    exact hblock (exists_flatten_of_exec hexec)

/-- Branches that are chosen in turn, beside branches that would fail. -/
def nestedBranches : Block :=
  .plain ⟨.push [1], rfl⟩ <| .conditional true
    (.plain ⟨.push [0x80], rfl⟩ <| .conditional false (.plain ⟨.push [5], rfl⟩ .nil)
      (.cons (.plain ⟨.op 0x6a, rfl⟩ .nil) .nil) .nil)
    (.cons (.plain ⟨.op 0x6a, rfl⟩ .nil) .nil) .nil

theorem run_nestedBranches :
    ¬ nestedBranches.flatten.EndsInSpend ∧
      (nestedBranches.flatten.run (.plain 0)).value = .ok ⟨[[5]], []⟩ := by
  have hspend : ¬ nestedBranches.flatten.EndsInSpend := fun h =>
    absurd h.getLast? (by decide)
  obtain ⟨hrun, -⟩ := (run_block_and_evaluate_not_block (.plain 0) hspend).1 nestedBranches rfl
  rw [hrun]
  exact ⟨hspend, rfl⟩

end Script

end CoinSpend
