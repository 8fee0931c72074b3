import CoinSpend.Proofs.Script.Exec
import CoinSpend.Proofs.Script.Scan
import CoinSpend.Proofs.Script.Shortest
import Mathlib

/-!
# Runs by index

A run can keep for each frame two indices into its script, that of the next instruction and that
behind the last one, instead of the instructions themselves. It then reads the script by index, the
hash two places behind a redeem script among others, and faults where there is nothing to read. It
never does, whatever the program is: the part that a window has left lies within what the window
around it skipped, and the whole program is around all parts of it.

Results:
* `Nest.of_follows`: each move keeps the windows in each other.
* `Walk.exists_step`: a step by index is no fault, it is a step of the run, and one of four moves.
-/

namespace CoinSpend

open Instruction (terminator)
open Script (Fault slice)

/-! ## The run by index -/

/-- A part of a script that is being run: the index of the next instruction, and the index behind
the last one. Model of `Frame`. -/
structure Window where
  origin : Origin
  script : Script
  next : ℕ
  stop : ℕ
deriving DecidableEq, Repr

/-- The state of a run by index: the windows, innermost first, the redeem scripts that were entered,
and the stacks. Model of the variables of `Script.run`. -/
structure Walk where
  windows : List Window
  spliced : List Script
  stack : Stack
deriving DecidableEq, Repr

/-- The window from another index on. -/
def Window.goTo (w : Window) (next : ℕ) : Window := { w with next := next }

/-- A part of the window. -/
def Window.part (w : Window) (range : ℕ × ℕ) : Window :=
  { w with next := range.1, stop := range.2 }

/-- The index of the push of the redeem script, if the program ends in the spend of a script hash.
Model of `p2sh_push_index`. -/
def spendPlace? (program : Script) : Option ℕ :=
  (Machine.spend? (program.drop (program.length - 4))).map fun _ => program.length - 4

/-- The redeem script in pushed data, which must have the hash that `expected` pushes. Model of
`splice_redeem_script`. -/
def redeemScript (raw : Bytes) (expected : Instruction) : Except ScriptError Script :=
  match expected.data? with
  | none => .error .redeemHashMismatch
  | some hash =>
    if (Hash.hash160 raw).val ≠ hash then .error .redeemHashMismatch
    else (Script.decode raw).mapError fun _ => .badRedeemScript

namespace Walk

/-- A program before its first step. -/
def start (program : Script) : Walk :=
  ⟨[⟨.program, program, 0, program.length⟩], [], Stack.empty⟩

/-- Goes to the end of the window, and puts the window of the redeem script in front of it. -/
def splice (w : Window) (ws : List Window) (spliced : List Script) (raw : Bytes) (s : Stack) :
    Except Fault (Except Failure Walk) :=
  if Stack.elementLimit < raw.length then .ok (.error ⟨.pushSize, none⟩)
  else match w.script[w.next + 2]? with
    | none => .error .index
    | some expected =>
      .ok <| ((Instruction.op Opcode.hash160).blame (redeemScript raw expected)).map fun script =>
        ⟨⟨.redeemScript, script, 0, script.length⟩ :: w.goTo w.stop :: ws, script :: spliced, s⟩

/-- Goes behind the conditional, and puts the window of one of its branches in front of it. -/
def takeBranch (w : Window) (ws : List Window) (spliced : List Script) (code : UInt8) (s : Stack) :
    Except Fault (Except Failure Walk) :=
  match Script.scanBranches w.script (w.next + 1) w.stop with
  | .error fault => .error fault
  | .ok (.error e) => .ok (.error ⟨e, some code⟩)
  | .ok (.ok ranges) =>
    .ok <| ((Instruction.op code).blame s.pop).map fun (condition, s) =>
      ⟨w.part (ranges.choose (ScriptNumber.isTrue condition = (code == Opcode.ifTrue))) ::
        w.goTo (ranges.endIf + 1) :: ws, spliced, s⟩

/-- One step of a run whose innermost window is `w`, inside of `ws`. Model of one pass of the loop
of `Script.run`. -/
def step (ctx : Context) (program : Script) (w : Window) (ws : List Window)
    (spliced : List Script) (s : Stack) : Except Fault (Except Failure Walk) :=
  if w.stop ≤ w.next then .ok (.ok ⟨ws, spliced, s⟩)
  else match w.script[w.next]? with
    | none => .error .index
    | some (.push data) =>
      if spliced = [] ∧ spendPlace? program = some w.next ∧ w.origin = .program then
        splice w ws spliced data s
      else .ok <| ((Instruction.push data).exec ctx s).map fun s =>
        ⟨w.goTo (w.next + 1) :: ws, spliced, s⟩
    | some (.op code) =>
      if (Instruction.op code).opens then takeBranch w ws spliced code s
      else if (Instruction.op code).separates || (Instruction.op code).closes then
        .ok (.error ⟨.unbalancedConditional, some code⟩)
      else .ok <| ((Instruction.op code).exec ctx s).map fun s =>
        ⟨w.goTo (w.next + 1) :: ws, spliced, s⟩

/-- The run from a state to its outcome, through all the states of the path and without a fault. -/
inductive Runs (ctx : Context) (program : Script) :
    Walk → List Walk → Except Failure Stack → Prop
  | ended {spliced : List Script} {s : Stack} :
    Runs ctx program ⟨[], spliced, s⟩ [⟨[], spliced, s⟩] (.ok s)
  | failed {w : Window} {ws : List Window} {spliced : List Script} {s : Stack} {failure : Failure}
    (h : step ctx program w ws spliced s = .ok (.error failure)) :
    Runs ctx program ⟨w :: ws, spliced, s⟩ [⟨w :: ws, spliced, s⟩] (.error failure)
  | goesOn {w : Window} {ws : List Window} {spliced : List Script} {s : Stack} {next : Walk}
    {path : List Walk} {outcome : Except Failure Stack}
    (h : step ctx program w ws spliced s = .ok (.ok next))
    (hrest : Runs ctx program next path outcome) :
    Runs ctx program ⟨w :: ws, spliced, s⟩ (⟨w :: ws, spliced, s⟩ :: path) outcome

/-- The instruction that is read in the next step: the script that it is from, and its index. -/
def place? : Walk → Option (Origin × ℕ)
  | ⟨[], _, _⟩ => none
  | ⟨w :: _, _, _⟩ => if w.next < w.stop then some (w.origin, w.next) else none

end Walk

/-- How the windows of a run lie in each other. The program is around all others, and a redeem
script runs when the program has nothing left. Another window is a part of the one around it,
between the start and the end of a conditional, which the window around it has behind it. -/
inductive Nest (program : Script) (spliced : List Script) : List Window → Prop
  | nil : Nest program spliced []
  | root {next : ℕ} (hnext : next ≤ program.length)
    (hspliced : spliced ≠ [] → next = program.length) :
    Nest program spliced [⟨.program, program, next, program.length⟩]
  | redeem {script : Script} {next : ℕ} (hspliced : spliced = [script])
    (hnext : next ≤ script.length) :
    Nest program spliced [⟨.redeemScript, script, next, script.length⟩,
      ⟨.program, program, program.length, program.length⟩]
  | branch {w : Window} {ws : List Window} {next stop opening endIf : ℕ}
    (hws : Nest program spliced (w :: ws)) (hopening : opening < next) (hnext : next ≤ stop)
    (hstop : stop ≤ endIf) (hendIf : endIf < w.next)
    (hopens : ∃ i, w.script[opening]? = some i ∧ i.opens = true)
    (hcloses : w.script[endIf]? = some (terminator true)) :
    Nest program spliced (w.part (next, stop) :: w :: ws)

namespace Nest

variable {program : Script} {spliced : List Script} {w : Window} {ws : List Window}

/-- The indices of each window are those of its script. -/
theorem le_of_mem (h : Nest program spliced ws) :
    ∀ w ∈ ws, w.next ≤ w.stop ∧ w.stop ≤ w.script.length := by
  induction h with
  | nil => simp
  | root hnext => simpa using hnext
  | redeem _ hnext => simpa using hnext
  | branch _ _ hnext hstop _ _ hcloses ih =>
    have hlt := (List.getElem?_eq_some_iff.mp hcloses).1
    refine List.forall_mem_cons.mpr ⟨⟨hnext, ?_⟩, ih⟩
    exact (hstop.trans_lt hlt).le

/-- A window of the program is a part of the program. -/
theorem script_of_mem (h : Nest program spliced ws) :
    ∀ w ∈ ws, w.origin = .program → w.script = program := by
  induction h with
  | nil => simp
  | root => simp
  | redeem => simp
  | branch _ _ _ _ _ _ _ ih =>
    have hw := ih _ List.mem_cons_self
    exact List.forall_mem_cons.mpr ⟨hw, ih⟩

/-- Before a redeem script is entered, all windows are of the program. -/
theorem origin_of_mem (h : Nest program [] ws) : ∀ w ∈ ws, w.origin = .program := by
  generalize hspliced : ([] : List Script) = spliced at h
  induction h with
  | nil => simp
  | root => simp
  | redeem hredeem => cases hspliced.trans hredeem
  | branch _ _ _ _ _ _ _ ih =>
    have hw := ih _ List.mem_cons_self
    exact List.forall_mem_cons.mpr ⟨hw, ih⟩

/-- What is left in a window around another one is of the same script, and behind that window. -/
theorem lt_of_mem (h : Nest program spliced (w :: ws)) :
    ∀ v ∈ ws, v.next < v.stop → v.origin = w.origin ∧ w.stop < v.next := by
  generalize hwindows : w :: ws = windows at h
  induction h generalizing w ws with
  | nil => cases hwindows
  | root =>
    cases hwindows
    simp
  | redeem =>
    cases hwindows
    simp
  | branch hws _ hnext hstop hendIf _ _ ih =>
    cases hwindows
    have hbehind := hstop.trans_lt hendIf
    have hle := (hws.le_of_mem _ List.mem_cons_self).1
    refine List.forall_mem_cons.mpr ⟨fun _ => ⟨rfl, hbehind⟩, fun v hv hleft => ?_⟩
    obtain ⟨horigin, hlt⟩ := ih rfl v hv hleft
    exact ⟨horigin, hbehind.trans (hle.trans_lt hlt)⟩

/-- The windows around the innermost one lie in each other themselves. -/
theorem tail (h : Nest program spliced (w :: ws)) : Nest program spliced ws := by
  cases h with
  | root => exact .nil
  | redeem hspliced => exact .root le_rfl fun _ => rfl
  | branch hws => exact hws

/-- The innermost window may go on. -/
theorem goTo (h : Nest program spliced (w :: ws)) {next : ℕ} (hnext : w.next ≤ next)
    (hstop : next ≤ w.stop) : Nest program spliced (w.goTo next :: ws) := by
  cases h with
  | root hle hspliced => exact .root hstop fun hne => le_antisymm hstop (hspliced hne ▸ hnext)
  | redeem hspliced => exact .redeem hspliced hstop
  | branch hws hopening _ hbefore hendIf hopens hcloses =>
    exact .branch hws (hopening.trans_le hnext) hstop hbefore hendIf hopens hcloses

end Nest

/-! ## One step -/

/-- The instructions that the window has left, as a frame. -/
def Window.frame (w : Window) : Frame := ⟨w.origin, w.next, w.script.slice w.next w.stop⟩

namespace Walk

/-- The state as that of a run. -/
def machine (m : Walk) : Machine := ⟨m.windows.map Window.frame, m.stack⟩

/-- The moves of a run by index. -/
inductive Follows (program : Script) : Walk → Walk → Prop
  /-- The window has no instruction left. -/
  | leave {w : Window} {ws : List Window} {spliced : List Script} {s : Stack}
    (hdone : w.stop ≤ w.next) : Follows program ⟨w :: ws, spliced, s⟩ ⟨ws, spliced, s⟩
  /-- The window goes on with the next instruction. -/
  | advance {w : Window} {ws : List Window} {spliced : List Script} {s t : Stack}
    (hnext : w.next < w.stop) :
    Follows program ⟨w :: ws, spliced, s⟩ ⟨w.goTo (w.next + 1) :: ws, spliced, t⟩
  /-- The window goes behind a conditional, and a branch of that gets a window. -/
  | branch {w : Window} {ws : List Window} {spliced : List Script} {s t : Stack} {range : ℕ × ℕ}
    {endIf : ℕ} (hstart : w.next < range.1) (hrange : range.1 ≤ range.2) (hstop : range.2 ≤ endIf)
    (hendIf : endIf < w.stop) (hopens : ∃ i, w.script[w.next]? = some i ∧ i.opens = true)
    (hcloses : w.script[endIf]? = some (terminator true)) :
    Follows program ⟨w :: ws, spliced, s⟩
      ⟨w.part range :: w.goTo (endIf + 1) :: ws, spliced, t⟩
  /-- The program goes behind its last four instructions, and a redeem script gets a window. -/
  | redeem {next : ℕ} {script : Script} {s : Stack} (hnext : next + 4 = program.length)
    (hlength : script.length ≤ 520) :
    Follows program ⟨[⟨.program, program, next, program.length⟩], [], s⟩
      ⟨[⟨.redeemScript, script, 0, script.length⟩,
        ⟨.program, program, program.length, program.length⟩], [script], s⟩

end Walk

/-- A move keeps the windows in each other. -/
theorem Nest.of_follows {program : Script} {m next : Walk} (h : Nest program m.spliced m.windows)
    (hfollows : Walk.Follows program m next) : Nest program next.spliced next.windows := by
  cases hfollows with
  | leave => exact h.tail
  | advance hnext => exact h.goTo (Nat.le_succ _) hnext
  | branch hstart hrange hstop hendIf hopens hcloses =>
    have hgoTo := h.goTo (hstart.le.trans (hrange.trans (hstop.trans (Nat.le_succ _)))) hendIf
    exact .branch hgoTo hstart hrange hstop (Nat.lt_succ_self _) hopens hcloses
  | redeem => exact .redeem rfl (Nat.zero_le _)

namespace Walk

variable {ctx : Context} {program : Script} {w : Window} {ws : List Window}
  {spliced : List Script} {s : Stack}

/-- The outcome of a step by index is that of a step of the run, and what goes on follows by one of
the moves. -/
structure Simulates (ctx : Context) (program : Script) (w : Window) (ws : List Window)
    (spliced : List Script) (s : Stack) (r : Except Failure Walk) : Prop where
  machine : r.map machine = Machine.step ctx w.frame (ws.map Window.frame) s
  follows : ∀ next, r = .ok next → Follows program ⟨w :: ws, spliced, s⟩ next

/-! ### The instructions of a window -/

theorem simulates_leave (hdone : w.stop ≤ w.next) :
    Simulates ctx program w ws spliced s (.ok ⟨ws, spliced, s⟩) := by
  constructor
  · rw [Machine.step_of_todo_eq_nil (Script.slice_eq_nil hdone)]
    rfl
  · rintro _ ⟨⟩
    exact .leave hdone

theorem simulates_advance {i : Instruction} (hnext : w.next < w.stop)
    (htodo : w.frame.todo = i :: w.script.slice (w.next + 1) w.stop) (hplain : i.isPlain = true)
    (hspend : ws.map Window.frame = [] → Machine.spend? w.frame.todo = none) :
    Simulates ctx program w ws spliced s
      ((i.exec ctx s).map fun s => ⟨w.goTo (w.next + 1) :: ws, spliced, s⟩) := by
  constructor
  · rw [Machine.step_plain htodo hspend hplain]
    cases i.exec ctx s <;> rfl
  · intro next hok
    obtain ⟨t, -, rfl⟩ := map_eq_ok_iff.mp hok
    exact .advance hnext

theorem frame_choose {r : Script.BranchRanges} {b : Branches}
    (h : r.Locates w.script (w.next + 1) w.stop b) (first : Bool) :
    (w.part (r.choose first)).frame = w.frame.branch b first := by
  cases first with
  | true =>
    change (⟨w.origin, r.first.1, w.script.slice r.first.1 r.first.2⟩ : Frame) = _
    rw [h.first, h.first_start]
    rfl
  | false =>
    change (⟨w.origin, r.second.1, w.script.slice r.second.1 r.second.2⟩ : Frame) = _
    rw [h.second, h.second_start, Nat.add_assoc]
    rfl

theorem frame_behind {r : Script.BranchRanges} {b : Branches}
    (h : r.Locates w.script (w.next + 1) w.stop b) :
    (w.goTo (r.endIf + 1)).frame = w.frame.advance (1 + b.span) b.after := by
  change (⟨w.origin, r.endIf + 1, w.script.slice (r.endIf + 1) w.stop⟩ : Frame) = _
  rw [h.after, h.span, Nat.add_assoc]
  rfl

/-- The conditional that starts at the next instruction is behind it in the window. -/
theorem follows_branch {r : Script.BranchRanges} {b : Branches} {t : Stack}
    (h : r.Locates w.script (w.next + 1) w.stop b)
    (hopens : ∃ i, w.script[w.next]? = some i ∧ i.opens = true) (first : Bool) :
    Follows program ⟨w :: ws, spliced, s⟩
      ⟨w.part (r.choose first) :: w.goTo (r.endIf + 1) :: ws, spliced, t⟩ := by
  have hstart : w.next < (r.choose first).1 := by
    cases first with
    | true => exact h.first_start.ge
    | false => exact (Nat.le_add_right _ _).trans h.second_start.ge
  have hrange : (r.choose first).1 ≤ (r.choose first).2 := by
    cases first with
    | true => exact h.first_le
    | false => exact h.second_le
  have hstop : (r.choose first).2 ≤ r.endIf := by
    cases first with
    | true => exact h.first_stop
    | false => exact h.second_stop
  exact .branch hstart hrange hstop h.endIf_lt hopens h.closes

/-- An opcode that opens a conditional, with a scan for its branches. -/
theorem exists_takeBranch {code : UInt8} (hstop : w.stop ≤ w.script.length)
    (hi : w.script[w.next]? = some (.op code))
    (htodo : w.frame.todo = .op code :: w.script.slice (w.next + 1) w.stop)
    (hopens : (Instruction.op code).opens = true) :
    ∃ r, takeBranch w ws spliced code s = .ok r ∧ Simulates ctx program w ws spliced s r := by
  have hspend : ws.map Window.frame = [] → Machine.spend? w.frame.todo = none := by
    intro _
    rw [htodo]
    rfl
  obtain ⟨hnone, hsome⟩ := @Script.scanBranches_eq w.script (w.next + 1) w.stop hstop
  cases hfind : Branches.find? (w.script.slice (w.next + 1) w.stop) with
  | none =>
    refine ⟨.error ⟨.unbalancedConditional, some code⟩, ?_, ?_, ?_⟩
    · rw [takeBranch, hnone hfind]
    · rw [Machine.step_unbalanced htodo hspend hopens hfind]
      rfl
    · rintro _ ⟨⟩
  | some b =>
    obtain ⟨ranges, hscan, hlocates⟩ := hsome b hfind
    refine ⟨_, by rw [takeBranch, hscan], ?_, ?_⟩
    · rw [Machine.step_conditional htodo hspend hopens hfind]
      cases (Instruction.op code).blame s.pop with
      | error failure => rfl
      | ok popped =>
        refine congrArg Except.ok ?_
        simp only [machine, List.map_cons, frame_choose hlocates, frame_behind hlocates]
        rfl
    · intro next hok
      obtain ⟨popped, -, rfl⟩ := map_eq_ok_iff.mp hok
      exact follows_branch hlocates ⟨_, hi, hopens⟩ _

/-! ### The spend of a script hash -/

theorem spendPlace?_eq_some_iff {place : ℕ} :
    spendPlace? program = some place ↔ ∃ (raw : Bytes) (hash : FixedBytes 20),
      program.drop place = .push raw :: Script.payToScriptHash hash := by
  unfold spendPlace?
  rw [Option.map_eq_some_iff]
  constructor
  · rintro ⟨⟨raw, hash⟩, hspend, rfl⟩
    obtain ⟨hlength, hdrop⟩ := Machine.spend?_eq_some_iff.mp hspend
    exact ⟨raw, ⟨hash, hlength⟩, hdrop⟩
  · rintro ⟨raw, hash, hdrop⟩
    have hplace : program.length - 4 = place := by
      have hlength := congrArg List.length hdrop
      rw [List.length_drop] at hlength
      change program.length - place = 4 at hlength
      omega
    exact ⟨(raw, hash.val), by rw [hplace, hdrop, Script.spend?_spend], hplace⟩

/-- The four instructions of the spend, by index. -/
theorem exists_of_spendPlace? {place : ℕ} (h : spendPlace? program = some place) :
    ∃ (raw : Bytes) (hash : FixedBytes 20),
      program.drop place = .push raw :: Script.payToScriptHash hash ∧
      program[place]? = some (.push raw) ∧ program[place + 2]? = some (.push hash.val) ∧
      place + 4 = program.length := by
  obtain ⟨raw, hash, hdrop⟩ := spendPlace?_eq_some_iff.mp h
  have hplaces : ∀ k, program[place + k]? =
      (Instruction.push raw :: Script.payToScriptHash hash)[k]? := by
    intro k
    rw [← hdrop, List.getElem?_drop]
  have hlength := congrArg List.length hdrop
  rw [List.length_drop] at hlength
  change program.length - place = 4 at hlength
  exact ⟨raw, hash, hdrop, hplaces 0, hplaces 2, by omega⟩

/-- The push of the redeem script is not in a branch of a conditional, so it is the whole program
that comes to it. -/
theorem eq_root_of_spendPlace? (h : Nest program [] (w :: ws))
    (hplace : spendPlace? program = some w.next) (hnext : w.next < w.stop) :
    w = ⟨.program, program, w.next, program.length⟩ ∧ ws = [] := by
  have hmem := h.origin_of_mem w List.mem_cons_self
  have hscript := h.script_of_mem w List.mem_cons_self hmem
  cases h with
  | root => exact ⟨rfl, rfl⟩
  | redeem hspliced => cases hspliced
  | @branch v ws next stop opening endIf _ _ _ hstop _ _ hcloses =>
    -- a branch stands in front of the end of its conditional, and the spend ends none
    obtain ⟨raw, hash, hdrop⟩ := spendPlace?_eq_some_iff.mp hplace
    change v.script = program at hscript
    have hle : next ≤ endIf := hnext.le.trans hstop
    have hend : (program.drop next)[endIf - next]? = some (terminator true) := by
      rw [List.getElem?_drop, Nat.add_sub_cancel' hle, ← hscript]
      exact hcloses
    change program.drop next = _ at hdrop
    rw [hdrop] at hend
    cases Script.isPlain_of_mem_spend _ (List.mem_of_getElem? hend)

/-- Elsewhere, the run does not come to the spend of a script hash either. -/
theorem spend?_eq_none (h : Nest program spliced (w :: ws))
    (hspend : ¬ (spliced = [] ∧ spendPlace? program = some w.next ∧ w.origin = .program)) :
    ws.map Window.frame = [] → Machine.spend? w.frame.todo = none := by
  intro hws
  obtain rfl := List.map_eq_nil_iff.mp hws
  by_contra hsome
  obtain ⟨⟨raw, hash⟩, hsome⟩ := Option.ne_none_iff_exists'.mp hsome
  obtain ⟨hlength, htodo⟩ := Machine.spend?_eq_some_iff.mp hsome
  cases h with
  | @root next _ hspliced =>
    change program.slice next program.length = _ at htodo
    rw [Script.slice_length] at htodo
    refine hspend ⟨?_, spendPlace?_eq_some_iff.mpr ⟨raw, ⟨hash, hlength⟩, htodo⟩, rfl⟩
    by_contra hne
    rw [hspliced hne, List.drop_length] at htodo
    cases htodo

theorem decode_of_redeemScript {raw hash : Bytes} {script : Script}
    (h : redeemScript raw (.push hash) = .ok script) : Script.decode raw = .ok script := by
  simp only [redeemScript, Instruction.data?] at h
  split at h
  · cases h
  · exact mapError_eq_ok_iff.mp h

theorem frame_whole (origin : Origin) (script : Script) :
    Window.frame ⟨origin, script, 0, script.length⟩ = ⟨origin, 0, script⟩ := by
  rw [Window.frame, Script.slice_length]
  rfl

/-- The program, behind the spend at its end, has nothing left. -/
theorem frame_behind_spend {place : ℕ} (h : place + 4 = program.length) :
    Window.frame ⟨.program, program, program.length, program.length⟩ =
      (Window.frame ⟨.program, program, place, program.length⟩).advance 4 [] := by
  rw [Window.frame, Script.slice_eq_nil le_rfl, Frame.advance, Window.frame, h]

/-- The push of the redeem script, with the hash two places behind it. -/
theorem exists_splice {data : Bytes} (h : Nest program [] (w :: ws))
    (hplace : spendPlace? program = some w.next) (hnext : w.next < w.stop)
    (hi : w.script[w.next]? = some (.push data)) :
    ∃ r, splice w ws [] data s = .ok r ∧ Simulates ctx program w ws [] s r := by
  obtain ⟨hw, rfl⟩ := eq_root_of_spendPlace? h hplace hnext
  obtain ⟨raw, hash, hdrop, hraw, hexpected, hlength⟩ := exists_of_spendPlace? hplace
  generalize w.next = place at *
  subst hw
  obtain rfl : raw = data := by
    cases hraw.symm.trans hi
    rfl
  have htodo : (Window.frame ⟨.program, program, place, program.length⟩).todo =
      .push raw :: Script.payToScriptHash hash := by
    change program.slice place program.length = _
    rw [Script.slice_length, hdrop]
  have hstep : Machine.step ctx (Window.frame ⟨.program, program, place, program.length⟩) [] s =
      Machine.enterRedeemScript (Window.frame ⟨.program, program, place, program.length⟩) raw
        hash.val s := Machine.step_spend (by rw [htodo, Script.spend?_spend]) s
  by_cases hlong : Stack.elementLimit < raw.length
  · refine ⟨.error ⟨.pushSize, none⟩, if_pos hlong, ?_, by rintro _ ⟨⟩⟩
    rw [List.map_nil, hstep, Machine.enterRedeemScript, if_pos hlong]
    rfl
  · refine ⟨_, by simp only [splice, if_neg hlong, hexpected]; rfl, ?_, ?_⟩
    · rw [List.map_nil, hstep, Machine.enterRedeemScript, if_neg hlong]
      simp only [redeemScript, Instruction.data?]
      split
      · rfl
      · cases Script.decode raw with
        | error e => rfl
        | ok script =>
          exact congrArg₂ (fun f g => Except.ok (⟨[f, g], s⟩ : Machine))
            (frame_whole .redeemScript script) (frame_behind_spend hlength)
    · intro m hok
      obtain ⟨script, hscript, rfl⟩ := map_eq_ok_iff.mp hok
      have hdecode := decode_of_redeemScript (mapError_eq_ok_iff.mp hscript)
      exact .redeem hlength
        ((Script.length_le_length_of_decode hdecode).trans (Nat.not_lt.mp hlong))

/-! ### Any step -/

/-- A step by index is no fault, and it is a step of the run. -/
theorem exists_step (h : Nest program spliced (w :: ws)) :
    ∃ r, step ctx program w ws spliced s = .ok r ∧ Simulates ctx program w ws spliced s r := by
  by_cases hdone : w.stop ≤ w.next
  · refine ⟨_, ?_, simulates_leave hdone⟩
    unfold step
    rw [if_pos hdone]
  · have hnext := Nat.lt_of_not_le hdone
    have hstop := (h.le_of_mem w List.mem_cons_self).2
    obtain ⟨i, hi, htodo⟩ := Script.slice_eq_cons hstop hnext
    unfold step
    rw [if_neg hdone, hi]
    cases i with
    | push data =>
      by_cases hspend : spliced = [] ∧ spendPlace? program = some w.next ∧ w.origin = .program
      · simp only [hspend, and_self, if_true]
        obtain ⟨rfl, hplace, -⟩ := hspend
        exact exists_splice h hplace hnext hi
      · simp only [hspend, if_false]
        exact ⟨_, rfl, simulates_advance hnext htodo rfl (spend?_eq_none h hspend)⟩
    | op code =>
      have hspend : ws.map Window.frame = [] → Machine.spend? w.frame.todo = none := by
        intro _
        rw [Window.frame, htodo]
        rfl
      rcases (Instruction.op code).kind with hplain | hopens | ⟨ended, hends⟩
      · obtain ⟨hopens, hseparates, hcloses⟩ := Instruction.isPlain_iff.mp hplain
        simp only [hopens, hseparates, hcloses, Bool.or_false, Bool.false_eq_true, if_false]
        exact ⟨_, rfl, simulates_advance hnext htodo hplain hspend⟩
      · simp only [hopens, if_true]
        exact exists_takeBranch hstop hi htodo hopens
      · obtain ⟨hopens, hstray⟩ : (Instruction.op code).opens = false ∧
            ((Instruction.op code).separates || (Instruction.op code).closes) = true := by
          rw [hends]
          cases ended <;> exact ⟨rfl, rfl⟩
        simp only [hopens, hstray, Bool.false_eq_true, if_false, if_true]
        refine ⟨_, rfl, ?_, by rintro _ ⟨⟩⟩
        have hstuck : w.frame.todo = terminator ended :: w.script.slice (w.next + 1) w.stop := by
          rw [Window.frame, htodo, hends]
        rw [Machine.step_terminator hstuck hspend, ← hends]
        rfl

end Walk

end CoinSpend
