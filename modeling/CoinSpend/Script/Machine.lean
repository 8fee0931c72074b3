import CoinSpend.Script.Codec
import CoinSpend.Script.Conditional
import CoinSpend.Script.Execute

/-!
# Running scripts

A run keeps a row of frames, each with the instructions it has still to run. A branch of a
conditional is a frame of its own, which runs before the frame it was taken from goes on behind the
conditional. A program that ends in the spend of a script hash has its redeem script run in the same
way, in place of the four instructions of the spend.

* `measure_step`: each step leaves the root frame or the row of frames shorter, so every run ends.
-/

namespace CoinSpend

/-- The scripts that take part in a run. -/
inductive Origin where
  | program
  | redeemScript
deriving DecidableEq, Repr

/-- A part of a script that is being run: the instructions still to be run, and the place of the
first of them in its script. Model of `Frame`. -/
structure Frame where
  origin : Origin
  position : Nat
  todo : Script
deriving DecidableEq, Repr

/-- The frame after `count` instructions, with those that remain. -/
def Frame.advance (f : Frame) (count : Nat) (todo : Script) : Frame :=
  { f with position := f.position + count, todo := todo }

/-- The state of a run: the frames, innermost first, and the stacks. Model of the variables of
`Script.run`. -/
structure Machine where
  frames : List Frame
  stack : Stack
deriving DecidableEq, Repr

namespace Machine

/-- A program before its first step. -/
def start (program : Script) : Machine := ⟨[⟨.program, 0, program⟩], Stack.empty⟩

/-- The redeem script and the hash in the spend of a script hash: a push of the script, and the
instructions that compare its hash with the given one. Model of `p2sh_push_index`. -/
def spend? : Script → Option (Bytes × Bytes)
  | [.push script, .op o₁, .push hash, .op o₂] =>
    if hash.length = 20 ∧ o₁ = Opcode.hash160 ∧ o₂ = Opcode.equal then some (script, hash) else none
  | _ => none

/-- Replaces the spend of a script hash, which is all that frame `f` has left, by the redeem script.
Model of `splice_redeem_script`. -/
def enterRedeemScript (f : Frame) (script hash : Bytes) (s : Stack) : Except Failure Machine :=
  if Stack.elementLimit < script.length then .error ⟨.pushSize, none⟩
  else if (Hash.hash160 script).val ≠ hash then .error ⟨.redeemHashMismatch, some Opcode.hash160⟩
  else match Script.decode script with
    | .error _ => .error ⟨.badRedeemScript, some Opcode.hash160⟩
    | .ok redeem => .ok ⟨[⟨.redeemScript, 0, redeem⟩, f.advance 4 []], s⟩

/-- Starts the conditional of an opcode that opens one, in front of `rest`. Model of the branch of
`OP_IF` and `OP_NOTIF` in `Script.run`. -/
def enterConditional (f : Frame) (fs : List Frame) (code : UInt8) (rest : Script) (s : Stack) :
    Except Failure Machine :=
  match Branches.find? rest with
  | none => .error ⟨.unbalancedConditional, some code⟩
  | some branches =>
    match s.pop with
    | .error e => .error ⟨e, some code⟩
    | .ok (condition, s) =>
      let branch :=
        if ScriptNumber.isTrue condition = (code == Opcode.ifTrue) then f.advance 1 branches.first
        else f.advance (1 + branches.secondOffset) branches.second
      .ok ⟨branch :: f.advance (1 + branches.span) branches.after :: fs, s⟩

/-- One step of a run whose innermost frame is `f`, inside of `fs`. Model of one pass of the loop of
`Script.run`. -/
def step (ctx : Context) (f : Frame) (fs : List Frame) (s : Stack) : Except Failure Machine :=
  match fs, spend? f.todo with
  | [], some (script, hash) => enterRedeemScript f script hash s
  | _, _ =>
    match f.todo with
    | [] => .ok ⟨fs, s⟩
    | .push data :: rest =>
      match s.push data with
      | .error e => .error ⟨e, none⟩
      | .ok s => .ok ⟨f.advance 1 rest :: fs, s⟩
    | .op code :: rest =>
      if (Instruction.op code).opens then enterConditional f fs code rest s
      else if (Instruction.op code).separates || (Instruction.op code).closes then
        .error ⟨.unbalancedConditional, some code⟩
      else
        match Opcode.execute ctx code s with
        | .error e => .error ⟨e, some code⟩
        | .ok s => .ok ⟨f.advance 1 rest :: fs, s⟩

/-- What is worth telling about a step. -/
def events (f : Frame) (s : Stack) : List Event :=
  match f.todo with
  | .op code :: _ =>
    if (Instruction.op code).opens || (Instruction.op code).separates
        || (Instruction.op code).closes then []
    else .executing code :: Opcode.events code s
  | _ => []

/-- How many instructions the outermost frame has left. -/
def rootLength : List Frame → Nat
  | [] => 0
  | [f] => f.todo.length
  | _ :: f :: fs => rootLength (f :: fs)

/-- How many instructions the frames have left, with one for each frame. -/
def totalLength : List Frame → Nat
  | [] => 0
  | f :: fs => f.todo.length + 1 + totalLength fs

/-- The length of a run is bounded by that of its outermost frame, then by that of all frames. -/
def Shorter (a b : List Frame) : Prop :=
  Prod.Lex (· < ·) (· < ·) (rootLength a, totalLength a) (rootLength b, totalLength b)

theorem shorter_of_total {a b : List Frame} (hroot : rootLength a ≤ rootLength b)
    (htotal : totalLength a < totalLength b) : Shorter a b := by
  unfold Shorter
  rcases Nat.lt_or_eq_of_le hroot with h | h
  · exact Prod.Lex.left _ _ h
  · rw [h]
    exact Prod.Lex.right _ htotal

theorem rootLength_cons_le {f g : Frame} {fs : List Frame} (h : f.todo.length ≤ g.todo.length) :
    rootLength (f :: fs) ≤ rootLength (g :: fs) := by
  cases fs with
  | nil => exact h
  | cons => exact Nat.le_refl _

theorem rootLength_le_cons {f : Frame} {fs : List Frame} :
    rootLength fs ≤ rootLength (f :: fs) := by
  cases fs with
  | nil => exact Nat.zero_le _
  | cons => exact Nat.le_refl _

theorem length_of_spend? {script : Script} {call : Bytes × Bytes} (h : spend? script = some call) :
    script.length = 4 := by
  unfold spend? at h
  split at h
  · rfl
  · simp at h

/-- An instruction less in the innermost frame is a shorter run. -/
theorem shorter_advance {f : Frame} {fs : List Frame} {i : Instruction} {rest : Script}
    (h : f.todo = i :: rest) : Shorter (f.advance 1 rest :: fs) (f :: fs) := by
  apply shorter_of_total
  · apply rootLength_cons_le
    simp [Frame.advance, h]
  · simp [totalLength, Frame.advance, h]

theorem shorter_enterConditional {f : Frame} {fs : List Frame} {code : UInt8} {rest : Script}
    {s : Stack} {m : Machine} (hf : f.todo = .op code :: rest)
    (h : enterConditional f fs code rest s = .ok m) : Shorter m.frames (f :: fs) := by
  unfold enterConditional at h
  split at h
  · simp at h
  · next branches hfind =>
    have hlen := Branches.length_find? hfind
    split at h
    · simp at h
    · simp only [Except.ok.injEq] at h
      subst h
      apply shorter_of_total
      · change rootLength (f.advance (1 + branches.span) branches.after :: fs) ≤
          rootLength (f :: fs)
        apply rootLength_cons_le
        simp only [Frame.advance, hf, List.length_cons]
        omega
      · simp only [totalLength, Frame.advance, hf, List.length_cons]
        split <;> simp only <;> omega

theorem measure_step {ctx : Context} {f : Frame} {fs : List Frame} {s : Stack} {m : Machine}
    (h : step ctx f fs s = .ok m) : Shorter m.frames (f :: fs) := by
  unfold step at h
  split at h
  · next hspend =>
    unfold enterRedeemScript at h
    split at h
    · simp at h
    · split at h
      · simp at h
      · split at h
        · simp at h
        · simp only [Except.ok.injEq] at h
          subst h
          apply Prod.Lex.left
          simp [rootLength, Frame.advance, length_of_spend? hspend]
  · split at h
    · next hf =>
      simp only [Except.ok.injEq] at h
      subst h
      exact shorter_of_total rootLength_le_cons (by simp [totalLength])
    · next hf =>
      split at h
      · simp at h
      · simp only [Except.ok.injEq] at h
        subst h
        exact shorter_advance hf
    · next hf =>
      split at h
      · exact shorter_enterConditional hf h
      · split at h
        · simp at h
        · split at h
          · simp at h
          · simp only [Except.ok.injEq] at h
            subst h
            exact shorter_advance hf

/-- Runs all frames, from the given stacks to those at the end. Model of the loop of `Script.run`.
-/
def run (ctx : Context) (frames : List Frame) (s : Stack) : Logged (Except Failure Stack) :=
  match frames with
  | [] => .silent (.ok s)
  | f :: fs =>
    match _h : step ctx f fs s with
    | .error failure => ⟨events f s, .error failure⟩
    | .ok next => (run ctx next.frames next.stack).after (events f s)
termination_by (rootLength frames, totalLength frames)
decreasing_by exact measure_step _h

end Machine

namespace Script

/-- The stacks at the end of a run of the script by itself. Model of `Script.run`. -/
def run (ctx : Context) (script : Script) : Logged (Except Failure Stack) :=
  Machine.run ctx (Machine.start script).frames (Machine.start script).stack

/-- What a run amounts to: the element on top must be there and have a byte. Model of the end of
`Script.run`. -/
def verdict : Except Failure Stack → Except Failure Unit
  | .error failure => .error failure
  | .ok ⟨(_ :: _) :: _, _⟩ => .ok ()
  | .ok _ => .error ⟨.evalFalse, none⟩

/-- Whether a script succeeds. A failure is told at the end. Model of `Script.evaluate_with`. -/
def evaluate (ctx : Context) (script : Script) : Logged Bool :=
  let outcome := script.run ctx
  match verdict outcome.value with
  | .ok () => ⟨outcome.log, true⟩
  | .error failure => ⟨outcome.log ++ [.scriptFailed failure], false⟩

end Script

end CoinSpend
