import CoinSpend.Script.Conditional
import Mathlib

/-!
# Where a conditional is split

The scan for the branches of a conditional looks at each instruction in one of three ways: it may
open a conditional, end a branch, or be plain. The scan of a longer body finds the same branches if
no branch ends in what was put behind it.

Results:
* `Instruction.kind`: the three ways.
* `Branches.split_opens`, `Branches.split_plain`, `Branches.split_zero_terminator`,
  `Branches.split_succ_endIf`, `Branches.split_succ_otherwise`: one step of the scan.
* `Branches.eq_append_of_split`, `Branches.after_suffix_of_find?`: what the parts come from.
* `Branches.find?_append`: what may stand behind the body.
-/

namespace CoinSpend

namespace Instruction

/-- Whether the instruction is no part of a conditional. -/
def isPlain (i : Instruction) : Bool := !(i.opens || i.separates || i.closes)

/-- The instruction that ends a branch, and maybe the conditional. -/
def terminator (ended : Bool) : Instruction := op (if ended then Opcode.endIf else Opcode.otherwise)

theorem isPlain_iff {i : Instruction} :
    i.isPlain = true ↔ i.opens = false ∧ i.separates = false ∧ i.closes = false := by
  simp [isPlain, and_assoc]

theorem eq_op_of_isOp {i : Instruction} {code : UInt8} (h : i.isOp code = true) : i = op code := by
  cases i with
  | push data => simp [isOp] at h
  | op c => rw [eq_of_beq h]

/-- An instruction that opens a conditional ends none. -/
theorem not_terminates_of_opens {i : Instruction} (h : i.opens = true) :
    i.separates = false ∧ i.closes = false := by
  rw [opens, Bool.or_eq_true] at h
  rcases h with h | h <;> rw [eq_op_of_isOp h] <;> decide

/-- An instruction is plain, opens a conditional, or ends a branch. -/
theorem kind (i : Instruction) :
    i.isPlain = true ∨ i.opens = true ∨ ∃ ended, i = terminator ended := by
  by_cases hopens : i.opens = true
  · exact .inr (.inl hopens)
  · by_cases hseparates : i.separates = true
    · exact .inr (.inr ⟨false, eq_op_of_isOp hseparates⟩)
    · by_cases hcloses : i.closes = true
      · exact .inr (.inr ⟨true, eq_op_of_isOp hcloses⟩)
      · simp [isPlain, hopens, hseparates, hcloses]

end Instruction

open Instruction (terminator)

namespace Branches

/-! ## Steps of the scan -/

/-- Puts instructions in front of what was found. -/
def prepend (front : Script) (found : Option (Script × Bool × Script)) :
    Option (Script × Bool × Script) :=
  found.map fun p => (front ++ p.1, p.2)

@[simp] theorem prepend_none (front : Script) : prepend front none = none := rfl

@[simp] theorem prepend_some (front body rest : Script) (ended : Bool) :
    prepend front (some (body, ended, rest)) = some (front ++ body, ended, rest) := rfl

@[simp] theorem prepend_nil (found : Option (Script × Bool × Script)) :
    prepend [] found = found := by
  cases found <;> rfl

theorem prepend_append (xs ys : Script) (found : Option (Script × Bool × Script)) :
    prepend (xs ++ ys) found = prepend xs (prepend ys found) := by
  cases found with
  | none => rfl
  | some p => simp [prepend]

theorem prepend_eq_some_iff {front body rest : Script} {ended : Bool}
    {found : Option (Script × Bool × Script)} :
    prepend front found = some (body, ended, rest) ↔
      ∃ body', found = some (body', ended, rest) ∧ front ++ body' = body := by
  cases found with
  | none => simp
  | some p =>
    obtain ⟨body', ended', rest'⟩ := p
    simp only [prepend_some, Option.some.injEq, Prod.mk.injEq]
    constructor
    · rintro ⟨rfl, rfl, rfl⟩
      exact ⟨body', ⟨rfl, rfl, rfl⟩, rfl⟩
    · rintro ⟨body', ⟨rfl, rfl, rfl⟩, rfl⟩
      exact ⟨rfl, rfl, rfl⟩

theorem split_opens {i : Instruction} (h : i.opens = true) (depth : ℕ) (rest : Script) :
    split depth (i :: rest) = prepend [i] (split (depth + 1) rest) := by
  conv_lhs => unfold split
  rw [if_pos h]
  rfl

theorem split_plain {i : Instruction} (h : i.isPlain = true) (depth : ℕ) (rest : Script) :
    split depth (i :: rest) = prepend [i] (split depth rest) := by
  obtain ⟨hopens, hseparates, hcloses⟩ := Instruction.isPlain_iff.mp h
  conv_lhs => unfold split
  simp only [hopens, hseparates, hcloses, Bool.false_eq_true, if_false, false_and]
  rfl

theorem split_zero_terminator (ended : Bool) (rest : Script) :
    split 0 (terminator ended :: rest) = some ([], ended, rest) := by
  cases ended <;> rfl

theorem split_succ_endIf (depth : ℕ) (rest : Script) :
    split (depth + 1) (terminator true :: rest) =
      prepend [terminator true] (split depth rest) := rfl

theorem split_succ_otherwise (depth : ℕ) (rest : Script) :
    split (depth + 1) (terminator false :: rest) =
      prepend [terminator false] (split (depth + 1) rest) := rfl

/-! ## What the parts come from -/

/-- A split takes the script apart at the instruction it was looking for. -/
theorem eq_append_of_split {depth : ℕ} {script body rest : Script} {ended : Bool}
    (h : split depth script = some (body, ended, rest)) :
    script = body ++ terminator ended :: rest := by
  induction script generalizing depth body with
  | nil => simp [split] at h
  | cons i script ih =>
    have hcons : ∀ d, prepend [i] (split d script) = some (body, ended, rest) →
        i :: script = body ++ terminator ended :: rest := by
      intro d hd
      obtain ⟨body', hsplit, rfl⟩ := prepend_eq_some_iff.mp hd
      rw [ih hsplit]
      rfl
    rcases i.kind with hplain | hopens | ⟨ended', rfl⟩
    · exact hcons _ (split_plain hplain depth script ▸ h)
    · exact hcons _ (split_opens hopens depth script ▸ h)
    · cases depth with
      | zero =>
        rw [split_zero_terminator] at h
        cases h
        rfl
      | succ depth => cases ended' <;> exact hcons _ h

/-- What stands behind a conditional ends the body. -/
theorem after_suffix_of_find? {body : Script} {b : Branches} (h : find? body = some b) :
    b.after <:+ body := by
  unfold find? at h
  split at h
  · simp at h
  · next first after hsplit =>
    cases h
    rw [eq_append_of_split hsplit]
    exact ⟨first ++ [terminator true], by simp⟩
  · next first rest hsplit =>
    split at h
    · next second after hrest =>
      cases h
      rw [eq_append_of_split hsplit, eq_append_of_split hrest]
      exact ⟨first ++ terminator false :: (second ++ [terminator true]), by simp⟩
    · simp at h

/-! ## Behind the body -/

/-- No branch of a conditional that starts before the script ends in it. -/
def EndsNone (script : Script) : Prop := ∀ depth, split depth script = none

theorem endsNone_of_plain {script : Script} (h : ∀ i ∈ script, i.isPlain = true) :
    EndsNone script := by
  intro depth
  induction script with
  | nil => rfl
  | cons i script ih =>
    rw [List.forall_mem_cons] at h
    rw [split_plain h.1, ih h.2, prepend_none]

theorem split_append {tail : Script} (h : EndsNone tail) (depth : ℕ) (script : Script) :
    split depth (script ++ tail) =
      (split depth script).map fun p => (p.1, p.2.1, p.2.2 ++ tail) := by
  induction script generalizing depth with
  | nil => rw [List.nil_append, h]; rfl
  | cons i script ih =>
    have hprepend : ∀ d, prepend [i] (split d (script ++ tail)) =
        (prepend [i] (split d script)).map fun p => (p.1, p.2.1, p.2.2 ++ tail) := by
      intro d
      rw [ih]
      cases split d script <;> rfl
    rw [List.cons_append]
    rcases i.kind with hplain | hopens | ⟨ended, rfl⟩
    · rw [split_plain hplain, split_plain hplain, hprepend]
    · rw [split_opens hopens, split_opens hopens, hprepend]
    · cases depth with
      | zero => rw [split_zero_terminator, split_zero_terminator]; rfl
      | succ depth => cases ended <;> exact hprepend _

/-- What stands behind the body, and ends no branch, stands behind the conditional. -/
theorem find?_append {tail : Script} (h : EndsNone tail) (body : Script) :
    find? (body ++ tail) = (find? body).map fun b => { b with after := b.after ++ tail } := by
  unfold find?
  rw [split_append h]
  rcases split 0 body with _ | ⟨first, _ | _, rest⟩
  · rfl
  · simp only [Option.map_some, split_append h]
    rcases split 0 rest with _ | ⟨second, _ | _, after⟩ <;> rfl
  · rfl

end Branches

end CoinSpend
