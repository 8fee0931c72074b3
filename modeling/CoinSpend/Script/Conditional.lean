import CoinSpend.Script.Instruction

/-!
# Conditionals

The branches of a conditional, found by counting how deep the conditionals inside it nest.

* `length_split`: splitting a body loses no instruction but the one that ends it.
-/

namespace CoinSpend

namespace Instruction

/-- Whether the instruction starts a conditional. -/
def opens (i : Instruction) : Bool := i.isOp Opcode.ifTrue || i.isOp Opcode.ifFalse

/-- Whether the instruction separates the branches of a conditional. -/
def separates (i : Instruction) : Bool := i.isOp Opcode.otherwise

/-- Whether the instruction ends a conditional. -/
def closes (i : Instruction) : Bool := i.isOp Opcode.endIf

end Instruction

/-- The branches of a conditional, and the instructions behind it. A conditional with one branch has
an empty second one, which stands at its end. Model of `Conditional`. -/
structure Branches where
  first : Script
  second : Script
  after : Script
  /-- How many instructions stand between the start of the conditional and its second branch. -/
  secondOffset : Nat
  /-- How many instructions the conditional has after the one that starts it. -/
  span : Nat
deriving DecidableEq, Repr

namespace Branches

/-- Splits a body at the first instruction that separates or ends the conditional `depth` levels up.
The result is what stands before it, whether it is the end, and what stands behind it. Model of the
loop of `find_conditional`, up to the end of one branch. -/
def split (depth : Nat) : Script → Option (Script × Bool × Script)
  | [] => none
  | i :: rest =>
    if i.opens then (split (depth + 1) rest).map fun (body, found) => (i :: body, found)
    else if i.closes then
      match depth with
      | 0 => some ([], true, rest)
      | depth + 1 => (split depth rest).map fun (body, found) => (i :: body, found)
    else if i.separates ∧ depth = 0 then some ([], false, rest)
    else (split depth rest).map fun (body, found) => (i :: body, found)

/-- The branches of the conditional that starts right before the given instructions. It must end,
and must have at most two branches. Model of `find_conditional`. -/
def find? (body : Script) : Option Branches :=
  match split 0 body with
  | none => none
  | some (first, true, after) => some ⟨first, [], after, first.length, first.length + 1⟩
  | some (first, false, rest) =>
    match split 0 rest with
    | some (second, true, after) =>
      some ⟨first, second, after, first.length + 1, first.length + second.length + 2⟩
    | _ => none

theorem length_split {depth : Nat} {script body rest : Script} {ended : Bool}
    (h : split depth script = some (body, ended, rest)) :
    body.length + rest.length + 1 = script.length := by
  induction script generalizing depth body with
  | nil => simp [split] at h
  | cons i script ih =>
    have hcons : ∀ d, (split d script).map (fun p => (i :: p.1, p.2)) = some (body, ended, rest) →
        body.length + rest.length + 1 = (i :: script).length := by
      intro d hd
      obtain ⟨⟨body', found⟩, hsplit, heq⟩ := Option.map_eq_some_iff.mp hd
      simp only [Prod.mk.injEq] at heq
      obtain ⟨rfl, rfl⟩ := heq
      have := ih hsplit
      simp only [List.length_cons]
      omega
    unfold split at h
    split at h
    · exact hcons _ h
    · split at h
      · split at h
        · simp only [Option.some.injEq, Prod.mk.injEq] at h
          obtain ⟨rfl, -, rfl⟩ := h
          simp
        · exact hcons _ h
      · split at h
        · simp only [Option.some.injEq, Prod.mk.injEq] at h
          obtain ⟨rfl, -, rfl⟩ := h
          simp
        · exact hcons _ h

/-- The branches and what stands behind them are shorter than the body they are found in. -/
theorem length_find? {body : Script} {b : Branches} (h : find? body = some b) :
    b.first.length + b.second.length + b.after.length < body.length := by
  unfold find? at h
  split at h
  · simp at h
  · next hsplit =>
    simp only [Option.some.injEq] at h
    subst h
    have := length_split hsplit
    simp only [List.length_nil]
    omega
  · next hsplit =>
    split at h
    · next hrest =>
      simp only [Option.some.injEq] at h
      subst h
      have := length_split hsplit
      have := length_split hrest
      simp only
      omega
    · simp at h

end Branches

end CoinSpend
