import CoinSpend.Proofs.Outcome
import CoinSpend.Proofs.Script.Split
import CoinSpend.Script.Machine
import Mathlib

/-!
# Runs without frames

The frames of a run keep what is still to be done. A recursion on the script does without them: a
conditional runs one of its branches, then what stands behind it. Only the spend of a script hash at
the end of a program is treated apart by a run, so the recursion describes all other runs.

Results:
* `Script.exec`: the recursion; `Script.exec_append`: it composes.
* `Machine.stepped_of_step`: all that a step can come to.
* `Machine.yields_append`: the states that a run comes to behind the front of its innermost frame.
* `Machine.run_append`: a run finishes the front of its innermost frame, then goes on with the rest.
* `Machine.run_cons`: a run finishes its innermost frame, then goes on with the others.
* `Script.run_eq_exec`: a run of a program by itself.
* `Script.runFrom_value`: a run from given stacks, in which no spend is treated apart.
-/

namespace CoinSpend

namespace Instruction

/-- The byte of an opcode. -/
def code? : Instruction → Option UInt8
  | op code => some code
  | push _ => none

/-- Blames the instruction for an error. -/
def blame {α : Type} (i : Instruction) (x : Except ScriptError α) : Except Failure α :=
  x.mapError fun e => ⟨e, i.code?⟩

/-- The stacks after an instruction that is no part of a conditional. -/
def exec (ctx : Context) (i : Instruction) (s : Stack) : Except Failure Stack :=
  i.blame <| match i with
    | op code => Opcode.execute ctx code s
    | push data => s.push data

/-- An element that is too long cannot be pushed on any stacks. -/
theorem exec_push_of_long {ctx : Context} {data : Bytes}
    (hlong : Stack.elementLimit < data.length) (s : Stack) :
    (push data).exec ctx s = .error ⟨.pushSize, none⟩ := by
  have hpush : s.push data = .error .pushSize := if_neg (Nat.not_le.mpr hlong)
  exact congrArg (push data).blame hpush

end Instruction

/-! ## The recursion -/

/-- The branch of a conditional that is run, which is the first one if `first` holds. -/
def Branches.choose (b : Branches) (first : Bool) : Script := if first then b.first else b.second

theorem Branches.length_choose_le (b : Branches) (first : Bool) :
    (b.choose first).length ≤ b.first.length + b.second.length := by
  cases first <;> simp [choose]

namespace Script

/-- The stacks after a script. -/
def exec (ctx : Context) (script : Script) (s : Stack) : Except Failure Stack :=
  match script with
  | [] => .ok s
  | i :: rest =>
    if i.opens then
      match _h : Branches.find? rest with
      | none => .error ⟨.unbalancedConditional, i.code?⟩
      | some b => do
        let (condition, s) ← i.blame s.pop
        let s ← exec ctx (b.choose (ScriptNumber.isTrue condition = i.isOp Opcode.ifTrue)) s
        exec ctx b.after s
    else if i.separates || i.closes then .error ⟨.unbalancedConditional, i.code?⟩
    else do
      let s ← i.exec ctx s
      exec ctx rest s
termination_by script.length
decreasing_by
  · have hlength := Branches.length_find? _h
    have hchoose := b.length_choose_le (ScriptNumber.isTrue condition = i.isOp Opcode.ifTrue)
    simp only [List.length_cons]
    omega
  · have hlength := Branches.length_find? _h
    simp only [List.length_cons]
    omega
  · simp

variable {ctx : Context}

@[simp] theorem exec_nil (s : Stack) : exec ctx [] s = .ok s := by
  rw [exec]

theorem exec_plain {i : Instruction} (h : i.isPlain = true) (rest : Script) (s : Stack) :
    exec ctx (i :: rest) s = i.exec ctx s >>= exec ctx rest := by
  obtain ⟨hopens, hseparates, hcloses⟩ := Instruction.isPlain_iff.mp h
  rw [exec, if_neg (by simp [hopens]), if_neg (by simp [hseparates, hcloses])]

theorem exec_plain_eq_ok_iff {i : Instruction} (h : i.isPlain = true) {rest : Script}
    {s t : Stack} : exec ctx (i :: rest) s = .ok t ↔
      ∃ u, i.exec ctx s = .ok u ∧ exec ctx rest u = .ok t := by
  rw [exec_plain h, bind_eq_ok_iff]

theorem exec_unbalanced {i : Instruction} {rest : Script} (hopens : i.opens = true)
    (hfind : Branches.find? rest = none) (s : Stack) :
    exec ctx (i :: rest) s = .error ⟨.unbalancedConditional, i.code?⟩ := by
  rw [exec, if_pos hopens]
  split
  · rfl
  · next hsome => simp [hfind] at hsome

theorem exec_conditional {i : Instruction} {rest : Script} {b : Branches}
    (hopens : i.opens = true) (hfind : Branches.find? rest = some b) (s : Stack) :
    exec ctx (i :: rest) s = (do
      let (condition, s) ← i.blame s.pop
      let s ← exec ctx (b.choose (ScriptNumber.isTrue condition = i.isOp Opcode.ifTrue)) s
      exec ctx b.after s) := by
  rw [exec, if_pos hopens]
  split
  · next hnone => simp [hfind] at hnone
  · next b' hsome =>
    obtain rfl : b' = b := Option.some.inj (hsome.symm.trans hfind)
    rfl

theorem exec_stray {i : Instruction} (h : (i.separates || i.closes) = true) (rest : Script)
    (s : Stack) : exec ctx (i :: rest) s = .error ⟨.unbalancedConditional, i.code?⟩ := by
  have hopens : ¬ i.opens = true := by
    intro hopens
    obtain ⟨hseparates, hcloses⟩ := Instruction.not_terminates_of_opens hopens
    simp [hseparates, hcloses] at h
  rw [exec, if_neg hopens, if_pos h]

theorem exec_terminator (ended : Bool) (rest : Script) (s : Stack) :
    exec ctx (Instruction.terminator ended :: rest) s =
      .error ⟨.unbalancedConditional, (Instruction.terminator ended).code?⟩ :=
  exec_stray (by cases ended <;> rfl) rest s

/-- What ends no branch is run after what stands before it, whatever conditionals that has. -/
theorem exec_append {tail : Script} (h : Branches.EndsNone tail) (script : Script) (s : Stack) :
    exec ctx (script ++ tail) s = exec ctx script s >>= exec ctx tail := by
  -- on the length, since a conditional goes on behind its end and not behind its first instruction
  induction hn : script.length using Nat.strong_induction_on generalizing script s with
  | _ n ih =>
  subst hn
  cases script with
  | nil => rw [List.nil_append, exec_nil, ok_bind]
  | cons i rest =>
    rw [List.cons_append]
    rcases i.kind with hplain | hopens | ⟨ended, rfl⟩
    · rw [exec_plain hplain, exec_plain hplain, bind_assoc]
      congr 1
      funext s
      exact ih rest.length (by simp) rest s rfl
    · have hfind := Branches.find?_append h rest
      cases hrest : Branches.find? rest with
      | none =>
        rw [hrest] at hfind
        rw [exec_unbalanced hopens hfind, exec_unbalanced hopens hrest, error_bind]
      | some b =>
        have hlength := Branches.length_find? hrest
        have hafter : exec ctx (b.after ++ tail) = fun s => exec ctx b.after s >>= exec ctx tail :=
          funext fun s => ih b.after.length (by rw [List.length_cons]; omega) b.after s rfl
        rw [hrest] at hfind
        rw [exec_conditional hopens hfind, exec_conditional hopens hrest]
        simp only [hafter, bind_assoc]
        rfl
    · rw [exec_terminator, exec_terminator, error_bind]

end Script

/-! ## Frames -/

/-- Whether a program ends in the spend of a script hash. -/
def Script.EndsInSpend (script : Script) : Prop :=
  ∃ (before : Script) (redeem : Bytes) (hash : FixedBytes 20),
    script = before ++ .push redeem :: payToScriptHash hash

theorem Script.isPlain_of_mem_spend {raw : Bytes} {hash : FixedBytes 20} :
    ∀ i ∈ .push raw :: payToScriptHash hash, i.isPlain = true := by
  intro i hi
  simp only [payToScriptHash, List.mem_cons, List.not_mem_nil, or_false] at hi
  rcases hi with rfl | rfl | rfl | rfl <;> rfl

/-- The frame of the branch of a conditional that is run. -/
def Frame.branch (f : Frame) (b : Branches) (first : Bool) : Frame :=
  if first then f.advance 1 b.first else f.advance (1 + b.secondOffset) b.second

theorem Frame.todo_branch (f : Frame) (b : Branches) (first : Bool) :
    (f.branch b first).todo = b.choose first := by
  cases first <;> rfl

namespace Machine

variable {ctx : Context}

theorem spend?_eq_some_iff {script : Script} {redeem hash : Bytes} :
    spend? script = some (redeem, hash) ↔
      ∃ h : hash.length = 20, script = .push redeem :: Script.payToScriptHash ⟨hash, h⟩ := by
  constructor
  · intro h
    unfold spend? at h
    split at h
    · split at h
      · next hops =>
        cases h
        obtain ⟨hlength, rfl, rfl⟩ := hops
        exact ⟨hlength, rfl⟩
      · simp at h
    · simp at h
  · rintro ⟨hlength, rfl⟩
    simp [spend?, Script.payToScriptHash, hlength]

theorem spend?_eq_none_of_suffix {script tail : Script} (h : ¬ script.EndsInSpend)
    (htail : tail <:+ script) : spend? tail = none := by
  obtain ⟨before, rfl⟩ := htail
  by_contra hspend
  obtain ⟨⟨redeem, hash⟩, hspend⟩ := Option.ne_none_iff_exists'.mp hspend
  obtain ⟨hlength, rfl⟩ := spend?_eq_some_iff.mp hspend
  exact h ⟨before, redeem, ⟨hash, hlength⟩, rfl⟩

theorem run_of_step_error {f : Frame} {fs : List Frame} {s : Stack} {failure : Failure}
    (h : step ctx f fs s = .error failure) :
    run ctx (f :: fs) s = ⟨events f s, .error failure⟩ := by
  rw [run]
  split
  · next h' => rw [Except.error.inj (h.symm.trans h')]
  · next h' => cases h.symm.trans h'

theorem run_of_step_ok {f : Frame} {fs : List Frame} {s : Stack} {next : Machine}
    (h : step ctx f fs s = .ok next) :
    run ctx (f :: fs) s = (run ctx next.frames next.stack).after (events f s) := by
  rw [run]
  split
  · next h' => cases h.symm.trans h'
  · next h' => rw [Except.ok.inj (h.symm.trans h')]

theorem run_value (f : Frame) (fs : List Frame) (s : Stack) :
    (run ctx (f :: fs) s).value =
      step ctx f fs s >>= fun m => (run ctx m.frames m.stack).value := by
  cases hstep : step ctx f fs s with
  | error failure =>
    rw [run_of_step_error hstep]
    rfl
  | ok next =>
    rw [run_of_step_ok hstep]
    rfl

/-- A step other than into a redeem script depends on the first instruction only. -/
theorem step_eq {f : Frame} {fs : List Frame} (h : fs = [] → spend? f.todo = none) (s : Stack) :
    step ctx f fs s = match f.todo with
      | [] => .ok ⟨fs, s⟩
      | i :: rest =>
        if i.opens then
          match Branches.find? rest with
          | none => .error ⟨.unbalancedConditional, i.code?⟩
          | some b => do
            let (condition, s) ← i.blame s.pop
            let branch := if ScriptNumber.isTrue condition = i.isOp Opcode.ifTrue
              then f.advance 1 b.first else f.advance (1 + b.secondOffset) b.second
            .ok ⟨branch :: f.advance (1 + b.span) b.after :: fs, s⟩
        else if i.separates || i.closes then .error ⟨.unbalancedConditional, i.code?⟩
        else i.exec ctx s >>= fun s => .ok ⟨f.advance 1 rest :: fs, s⟩ := by
  unfold step
  split
  · next hspend =>
    rw [h rfl] at hspend
    simp at hspend
  · cases f.todo with
    | nil => rfl
    | cons i rest =>
      cases i with
      | push data =>
        simp only [Instruction.exec]
        cases s.push data <;> rfl
      | op code =>
        by_cases hopens : (Instruction.op code).opens = true
        · simp only [if_pos hopens, enterConditional]
          cases Branches.find? rest with
          | none => rfl
          | some b => cases s.pop <;> rfl
        · simp only [if_neg hopens, Instruction.exec]
          split
          · rfl
          · cases Opcode.execute ctx code s <;> rfl

@[simp] theorem run_nil (s : Stack) : (run ctx [] s).value = .ok s := by
  rw [run]
  rfl

/-- In front of the spend of a script hash alone, the program has its redeem script entered. -/
theorem step_spend {f : Frame} {raw hash : Bytes} (h : spend? f.todo = some (raw, hash))
    (s : Stack) : step ctx f [] s = enterRedeemScript f raw hash s := by
  unfold step
  rw [h]

/-! Each kind of instruction at the front of the innermost frame. -/

section Front

variable {f : Frame} {fs : List Frame} {i : Instruction} {rest : Script}

theorem step_of_todo_eq_nil (hf : f.todo = []) (fs : List Frame) (s : Stack) :
    step ctx f fs s = .ok ⟨fs, s⟩ := by
  have hspend : fs = [] → spend? f.todo = none := by
    intro _
    rw [hf]
    rfl
  rw [step_eq hspend, hf]

theorem step_plain (hf : f.todo = i :: rest) (hspend : fs = [] → spend? f.todo = none)
    (hplain : i.isPlain = true) (s : Stack) :
    step ctx f fs s = i.exec ctx s >>= fun s => .ok ⟨f.advance 1 rest :: fs, s⟩ := by
  obtain ⟨hopens, hseparates, hcloses⟩ := Instruction.isPlain_iff.mp hplain
  rw [step_eq hspend, hf]
  simp only [hopens, hseparates, hcloses, Bool.or_false, Bool.false_eq_true, if_false]

theorem step_unbalanced (hf : f.todo = i :: rest) (hspend : fs = [] → spend? f.todo = none)
    (hopens : i.opens = true) (hfind : Branches.find? rest = none) (s : Stack) :
    step ctx f fs s = .error ⟨.unbalancedConditional, i.code?⟩ := by
  rw [step_eq hspend, hf]
  simp only [hopens, if_true, hfind]

/-- The branch that is run has a frame of its own, in front of that of what stands behind it. -/
theorem step_conditional {b : Branches} (hf : f.todo = i :: rest)
    (hspend : fs = [] → spend? f.todo = none) (hopens : i.opens = true)
    (hfind : Branches.find? rest = some b) (s : Stack) :
    step ctx f fs s = i.blame s.pop >>= fun (condition, s) =>
      .ok ⟨f.branch b (ScriptNumber.isTrue condition = i.isOp Opcode.ifTrue) ::
        f.advance (1 + b.span) b.after :: fs, s⟩ := by
  rw [step_eq hspend, hf]
  simp only [hopens, if_true, hfind, Frame.branch, decide_eq_true_eq]

theorem step_terminator {ended : Bool} (hf : f.todo = Instruction.terminator ended :: rest)
    (hspend : fs = [] → spend? f.todo = none) (s : Stack) :
    step ctx f fs s =
      .error ⟨.unbalancedConditional, (Instruction.terminator ended).code?⟩ := by
  rw [step_eq hspend, hf]
  cases ended <;> rfl

theorem run_of_todo_eq_nil (hf : f.todo = []) (fs : List Frame) (s : Stack) :
    (run ctx (f :: fs) s).value = (run ctx fs s).value := by
  rw [run_value, step_of_todo_eq_nil hf, ok_bind]

/-- All that a step can come to. -/
inductive Stepped (ctx : Context) (f : Frame) (fs : List Frame) (s : Stack) : Machine → Prop
  /-- The frame is done. -/
  | left (hf : f.todo = []) : Stepped ctx f fs s ⟨fs, s⟩
  /-- The instruction in front is executed. -/
  | executed {i : Instruction} {rest : Script} {t : Stack} (hf : f.todo = i :: rest)
    (hspend : fs = [] → spend? f.todo = none) (hplain : i.isPlain = true)
    (hexec : i.exec ctx s = .ok t) : Stepped ctx f fs s ⟨f.advance 1 rest :: fs, t⟩
  /-- A branch of the conditional in front is chosen. -/
  | branched {i : Instruction} {rest : Script} {b : Branches} {condition : Bytes} {t : Stack}
    (hf : f.todo = i :: rest) (hspend : fs = [] → spend? f.todo = none) (hopens : i.opens = true)
    (hfind : Branches.find? rest = some b) (hpop : s.pop = .ok (condition, t)) :
    Stepped ctx f fs s ⟨f.branch b (ScriptNumber.isTrue condition = i.isOp Opcode.ifTrue) ::
      f.advance (1 + b.span) b.after :: fs, t⟩
  /-- The redeem script of a spend is entered. -/
  | entered {raw hash : Bytes} {script : Script} (hfs : fs = [])
    (hspend : spend? f.todo = some (raw, hash)) (hlength : raw.length ≤ Stack.elementLimit)
    (hhash : (Hash.hash160 raw).val = hash) (hdecode : Script.decode raw = .ok script) :
    Stepped ctx f fs s ⟨[⟨.redeemScript, 0, script⟩, f.advance 4 []], s⟩

theorem stepped_of_enterRedeemScript {raw hash : Bytes} {s : Stack} {next : Machine}
    (hspend : spend? f.todo = some (raw, hash)) (h : enterRedeemScript f raw hash s = .ok next) :
    Stepped ctx f [] s next := by
  unfold enterRedeemScript at h
  split_ifs at h with hlong hhash
  cases hdecode : Script.decode raw with
  | error e =>
    rw [hdecode] at h
    cases h
  | ok script =>
    rw [hdecode] at h
    cases h
    exact .entered rfl hspend (Nat.not_lt.mp hlong) (not_not.mp hhash) hdecode

theorem stepped_of_step {s : Stack} {next : Machine} (h : step ctx f fs s = .ok next) :
    Stepped ctx f fs s next := by
  by_cases hspend : fs = [] → spend? f.todo = none
  · cases hf : f.todo with
    | nil =>
      rw [step_of_todo_eq_nil hf] at h
      cases h
      exact .left hf
    | cons i rest =>
      rcases i.kind with hplain | hopens | ⟨ended, rfl⟩
      · rw [step_plain hf hspend hplain] at h
        obtain ⟨t, hexec, h⟩ := bind_eq_ok_iff.mp h
        cases h
        exact .executed hf hspend hplain hexec
      · cases hfind : Branches.find? rest with
        | none =>
          rw [step_unbalanced hf hspend hopens hfind] at h
          cases h
        | some b =>
          rw [step_conditional hf hspend hopens hfind] at h
          obtain ⟨⟨condition, t⟩, hpop, h⟩ := bind_eq_ok_iff.mp h
          cases h
          exact .branched hf hspend hopens hfind (mapError_eq_ok_iff.mp hpop)
      · rw [step_terminator hf hspend] at h
        cases h
  · rw [Classical.not_imp] at hspend
    obtain ⟨rfl, hsome⟩ := hspend
    obtain ⟨⟨raw, hash⟩, hsome⟩ := Option.ne_none_iff_exists'.mp hsome
    rw [step_spend hsome] at h
    exact stepped_of_enterRedeemScript hsome h

end Front

/-! ## From state to state -/

/-- The run goes from one state to the other in one step. -/
def StepsTo (ctx : Context) (m next : Machine) : Prop :=
  ∃ f fs, m.frames = f :: fs ∧ step ctx f fs m.stack = .ok next

/-- The run gets from one state to the other. -/
abbrev Reaches (ctx : Context) : Machine → Machine → Prop := Relation.ReflTransGen (StepsTo ctx)

theorem run_value_of_reaches {m m' : Machine} (h : Reaches ctx m m') :
    (run ctx m.frames m.stack).value = (run ctx m'.frames m'.stack).value := by
  induction h with
  | refl => rfl
  | tail _ hstep ih =>
    obtain ⟨f, fs, hframes, hstep⟩ := hstep
    rw [ih, hframes, run_value, hstep, ok_bind]

/-- The run gets to `tail` in front of `fs` with the stacks of the outcome, or it gets stuck with
the failure of the outcome. -/
def Yields (ctx : Context) (m : Machine) (tail : Script) (fs : List Frame) :
    Except Failure Stack → Prop
  | .ok t => ∃ g : Frame, g.todo = tail ∧ Reaches ctx m ⟨g :: fs, t⟩
  | .error failure => ∃ g gs t, Reaches ctx m ⟨g :: gs, t⟩ ∧ step ctx g gs t = .error failure

namespace Yields

variable {m m' : Machine} {tail tail' : Script} {fs fs' : List Frame}
  {outcome : Except Failure Stack}

theorem of_reaches (h : Reaches ctx m m') (h' : Yields ctx m' tail fs outcome) :
    Yields ctx m tail fs outcome := by
  cases outcome with
  | error failure =>
    obtain ⟨g, gs, t, hreach, hstep⟩ := h'
    exact ⟨g, gs, t, h.trans hreach, hstep⟩
  | ok t =>
    obtain ⟨g, hg, hreach⟩ := h'
    exact ⟨g, hg, h.trans hreach⟩

theorem bind {next : Stack → Except Failure Stack} (h : Yields ctx m tail fs outcome)
    (hnext : ∀ g t, g.todo = tail → Yields ctx ⟨g :: fs, t⟩ tail' fs' (next t)) :
    Yields ctx m tail' fs' (outcome >>= next) := by
  cases outcome with
  | error failure => exact h
  | ok t =>
    obtain ⟨g, hg, hreach⟩ := h
    exact (hnext g t hg).of_reaches hreach

end Yields

/-- A run finishes the front of its innermost frame and comes to the plain instructions behind it,
unless that frame is the whole program and the front reaches into the spend of a script hash. -/
theorem yields_append {f : Frame} {fs : List Frame} {front tail : Script}
    (hf : f.todo = front ++ tail) (htail : ∀ i ∈ tail, i.isPlain = true)
    (hspend : fs = [] → ∀ rest, rest <:+ front → rest ≠ [] → spend? (rest ++ tail) = none)
    (s : Stack) : Yields ctx ⟨f :: fs, s⟩ tail fs (front.exec ctx s) := by
  -- by induction on the front, for any frames behind it: a branch has a front and no tail
  induction hn : front.length using Nat.strong_induction_on generalizing f fs front tail s with
  | _ n ih =>
  subst hn
  cases front with
  | nil =>
    rw [Script.exec_nil]
    exact ⟨f, hf, .refl⟩
  | cons i rest =>
    have hsuffix : ∀ {after : Script}, after <:+ rest →
        fs = [] → ∀ rest, rest <:+ after → rest ≠ [] → spend? (rest ++ tail) = none := by
      intro after hafter hfs rest' hrest'
      exact hspend hfs rest' ((hrest'.trans hafter).trans (List.suffix_cons i rest))
    have hhead : fs = [] → spend? f.todo = none := by
      intro hfs
      rw [hf]
      exact hspend hfs _ List.suffix_rfl (List.cons_ne_nil i rest)
    rw [List.cons_append] at hf
    have hstuck : ∀ {failure : Failure}, step ctx f fs s = .error failure →
        Yields ctx ⟨f :: fs, s⟩ tail fs (.error failure) :=
      fun hstep => ⟨f, fs, s, .refl, hstep⟩
    rcases i.kind with hplain | hopens | ⟨ended, rfl⟩
    · rw [Script.exec_plain hplain]
      have hstep : step ctx f fs s = _ := step_plain hf hhead hplain s
      cases hexec : i.exec ctx s with
      | error failure =>
        rw [hexec] at hstep
        exact hstuck hstep
      | ok t =>
        rw [hexec] at hstep
        exact (ih rest.length (by simp) rfl htail (hsuffix List.suffix_rfl) t rfl).of_reaches
          (.single ⟨f, fs, rfl, hstep⟩)
    · have hfind := Branches.find?_append (Branches.endsNone_of_plain htail) rest
      cases hrest : Branches.find? rest with
      | none =>
        rw [hrest] at hfind
        rw [Script.exec_unbalanced hopens hrest]
        exact hstuck (step_unbalanced hf hhead hopens hfind s)
      | some b =>
        have hlength := Branches.length_find? hrest
        have hafter := Branches.after_suffix_of_find? hrest
        rw [hrest] at hfind
        have hstep : step ctx f fs s = _ := step_conditional hf hhead hopens hfind s
        rw [Script.exec_conditional hopens hrest]
        cases hpop : i.blame s.pop with
        | error failure =>
          rw [hpop] at hstep
          exact hstuck hstep
        | ok popped =>
          obtain ⟨condition, u⟩ := popped
          rw [hpop] at hstep
          have hbranch : ∀ first, Yields ctx
              ⟨f.branch b first :: f.advance (1 + b.span) (b.after ++ tail) :: fs, u⟩ []
              (f.advance (1 + b.span) (b.after ++ tail) :: fs) ((b.choose first).exec ctx u) := by
            intro first
            have hchoose := b.length_choose_le first
            exact ih (b.choose first).length (by rw [List.length_cons]; omega)
              (by rw [f.todo_branch, List.append_nil]) (by simp) (by simp) u rfl
          refine Yields.of_reaches (.single ⟨f, fs, rfl, hstep⟩) ((hbranch _).bind ?_)
          intro g t hg
          exact (ih b.after.length (by rw [List.length_cons]; omega) rfl htail (hsuffix hafter)
            t rfl).of_reaches (.single ⟨g, _, rfl, step_of_todo_eq_nil hg _ t⟩)
    · rw [Script.exec_terminator]
      exact hstuck (step_terminator hf hhead s)

/-- What a run amounts to is what it makes of the front, and then of the plain instructions. -/
theorem run_append {f : Frame} {fs : List Frame} {front tail : Script}
    {next : Stack → Except Failure Stack} (hf : f.todo = front ++ tail)
    (htail : ∀ i ∈ tail, i.isPlain = true)
    (hspend : fs = [] → ∀ rest, rest <:+ front → rest ≠ [] → spend? (rest ++ tail) = none)
    (hnext : ∀ (g : Frame) s, g.todo = tail → (run ctx (g :: fs) s).value = next s) (s : Stack) :
    (run ctx (f :: fs) s).value = front.exec ctx s >>= next := by
  have hyields : Yields ctx ⟨f :: fs, s⟩ tail fs _ := yields_append hf htail hspend s
  cases hexec : front.exec ctx s with
  | error failure =>
    rw [hexec] at hyields
    obtain ⟨g, gs, t, hreach, hstep⟩ := hyields
    rw [run_value_of_reaches hreach, run_value, hstep]
    rfl
  | ok t =>
    rw [hexec] at hyields
    obtain ⟨g, hg, hreach⟩ := hyields
    rw [run_value_of_reaches hreach]
    exact hnext g t hg

/-- A run finishes its innermost frame and goes on with the others, unless that frame is the whole
program and ends in the spend of a script hash. -/
theorem run_cons {f : Frame} {fs : List Frame} (h : fs = [] → ¬ f.todo.EndsInSpend) (s : Stack) :
    (run ctx (f :: fs) s).value =
      f.todo.exec ctx s >>= fun s => (run ctx fs s).value := by
  refine run_append (List.append_nil f.todo).symm (by simp) ?_ ?_ s
  · intro hfs rest hrest _
    rw [List.append_nil]
    exact spend?_eq_none_of_suffix (h hfs) hrest
  · intro g s hg
    exact run_of_todo_eq_nil hg fs s

end Machine

/-! ## Programs -/

theorem Script.spend?_spend {raw : Bytes} {hash : FixedBytes 20} :
    Machine.spend? (.push raw :: payToScriptHash hash) = some (raw, hash.val) :=
  Machine.spend?_eq_some_iff.mpr ⟨hash.property, rfl⟩

/-- In front of the whole spend a program does not look like a spend. -/
theorem Script.spend?_append_spend {front : Script} {raw : Bytes} {hash : FixedBytes 20}
    (h : front ≠ []) : Machine.spend? (front ++ .push raw :: payToScriptHash hash) = none := by
  by_contra hspend
  obtain ⟨call, hspend⟩ := Option.ne_none_iff_exists'.mp hspend
  have hlength := Machine.length_of_spend? hspend
  have hfront := List.length_pos_iff.mpr h
  simp only [payToScriptHash, List.length_append, List.length_cons, List.length_nil] at hlength
  omega

/-- A program that does not end in the spend of a script hash is run instruction by instruction. -/
theorem Script.run_eq_exec {ctx : Context} {script : Script} (h : ¬ script.EndsInSpend) :
    (script.run ctx).value = script.exec ctx Stack.empty := by
  change (Machine.run ctx [⟨.program, 0, script⟩] Stack.empty).value = _
  rw [Machine.run_cons fun _ => h]
  simp only [Machine.run_nil]
  exact bind_pure _

/-- A run of the script from given stacks. The spend of a script hash at its end is not treated
apart, since the script is run in front of another frame, which has nothing to do. -/
def Script.runFrom (ctx : Context) (script : Script) (s : Stack) : Logged (Except Failure Stack) :=
  Machine.run ctx [⟨.program, 0, script⟩, ⟨.program, script.length, []⟩] s

theorem Script.run_before_finished {ctx : Context} (f : Frame) {g : Frame} (hg : g.todo = [])
    (s : Stack) : (Machine.run ctx [f, g] s).value = exec ctx f.todo s := by
  rw [Machine.run_cons (by simp)]
  simp only [Machine.run_of_todo_eq_nil hg, Machine.run_nil]
  exact bind_pure _

theorem Script.runFrom_value {ctx : Context} (script : Script) (s : Stack) :
    (runFrom ctx script s).value = exec ctx script s :=
  run_before_finished ⟨.program, 0, script⟩ rfl s

theorem Script.EndsInSpend.getLast? {script : Script} (h : script.EndsInSpend) :
    script.getLast? = some (.op Opcode.equal) := by
  obtain ⟨before, redeem, hash, rfl⟩ := h
  simp [payToScriptHash]

/-! ## What a run amounts to -/

/-- A run succeeds if an element with a byte is on top at its end. -/
theorem Script.evaluate_iff {ctx : Context} {script : Script} :
    (script.evaluate ctx).value = true ↔
      ∃ top rest alt, (script.run ctx).value = .ok ⟨top :: rest, alt⟩ ∧ top ≠ [] := by
  have hverdict : (script.evaluate ctx).value = true ↔ verdict (script.run ctx).value = .ok () := by
    unfold evaluate
    cases h : verdict (script.run ctx).value <;> simp [h]
  rw [hverdict]
  rcases (script.run ctx).value with failure | ⟨_ | ⟨_ | ⟨byte, top⟩, rest⟩, alt⟩ <;>
    simp [verdict]

end CoinSpend
