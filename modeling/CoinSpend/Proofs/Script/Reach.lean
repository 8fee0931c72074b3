import CoinSpend.Proofs.Script.Exec
import Mathlib

/-!
# Which runs enter a redeem script

A run enters a redeem script from a state in which the program has nothing left but the spend of a
script hash, so the spend stands at the end of the program. A run that never comes to such a state
is the same in front of another frame, where no spend is treated apart.

Results:
* `Machine.rootTodo_of_reaches`: what is left of a program ends the program.
* `Machine.run_append_finished`: a run that enters no redeem script, in front of another frame.
* `Script.EntersRedeem.eq_append`, `Script.entersRedeem_append`: which programs enter which redeem
  script.
-/

namespace CoinSpend

namespace Machine

variable {ctx : Context}

/-! ## What is left of a program -/

/-- What the outermost frame has left. -/
def rootTodo : List Frame → Script
  | [] => []
  | [f] => f.todo
  | _ :: f :: fs => rootTodo (f :: fs)

theorem rootTodo_suffix_cons (f : Frame) (fs : List Frame) :
    rootTodo fs <:+ rootTodo (f :: fs) := by
  cases fs with
  | nil => exact List.nil_suffix
  | cons => exact List.suffix_rfl

theorem rootTodo_cons_suffix {f g : Frame} (h : g.todo <:+ f.todo) (fs : List Frame) :
    rootTodo (g :: fs) <:+ rootTodo (f :: fs) := by
  cases fs with
  | nil => exact h
  | cons => exact List.suffix_rfl

/-- A step ends the innermost frame or leaves an end of it, maybe behind a frame that it starts. -/
theorem frames_of_step {f : Frame} {fs : List Frame} {s : Stack} {next : Machine}
    (h : step ctx f fs s = .ok next) : next.frames = fs ∨ ∃ g : Frame, g.todo <:+ f.todo ∧
      (next.frames = g :: fs ∨ ∃ started, next.frames = started :: g :: fs) := by
  cases stepped_of_step h with
  | left => exact .inl rfl
  | @executed i rest _ hf =>
    rw [hf]
    exact .inr ⟨_, List.suffix_cons i rest, .inl rfl⟩
  | @branched i rest _ _ _ hf _ _ hfind =>
    have hafter := Branches.after_suffix_of_find? hfind
    rw [hf]
    exact .inr ⟨_, hafter.trans (List.suffix_cons i rest), .inr ⟨_, rfl⟩⟩
  | entered hfs => exact .inr ⟨f.advance 4 [], List.nil_suffix, .inr ⟨_, by rw [hfs]⟩⟩

theorem rootTodo_of_stepsTo {m next : Machine} (h : StepsTo ctx m next) :
    rootTodo next.frames <:+ rootTodo m.frames := by
  obtain ⟨f, fs, hframes, hstep⟩ := h
  rw [hframes]
  rcases frames_of_step hstep with hnext | ⟨g, hg, hnext | ⟨started, hnext⟩⟩
  · rw [hnext]
    exact rootTodo_suffix_cons f fs
  · rw [hnext]
    exact rootTodo_cons_suffix hg fs
  · rw [hnext]
    exact rootTodo_cons_suffix hg fs

/-- What is left of a program at any time ends the program. -/
theorem rootTodo_of_reaches {m m' : Machine} (h : Reaches ctx m m') :
    rootTodo m'.frames <:+ rootTodo m.frames := by
  induction h with
  | refl => exact List.suffix_rfl
  | tail _ hstep ih => exact (rootTodo_of_stepsTo hstep).trans ih

/-! ## In front of another frame -/

/-- A step other than into a redeem script does not depend on how many frames there are. -/
theorem step_append_frame {f : Frame} {fs : List Frame} (h : fs = [] → spend? f.todo = none)
    (g : Frame) (s : Stack) : step ctx f (fs ++ [g]) s =
      (step ctx f fs s).map fun next => ⟨next.frames ++ [g], next.stack⟩ := by
  have hmore : fs ++ [g] = [] → spend? f.todo = none := by simp
  cases hf : f.todo with
  | nil =>
    rw [step_of_todo_eq_nil hf, step_of_todo_eq_nil hf]
    rfl
  | cons i rest =>
    rcases i.kind with hplain | hopens | ⟨ended, rfl⟩
    · rw [step_plain hf hmore hplain, step_plain hf h hplain]
      cases i.exec ctx s <;> rfl
    · cases hfind : Branches.find? rest with
      | none =>
        rw [step_unbalanced hf hmore hopens hfind, step_unbalanced hf h hopens hfind]
        rfl
      | some b =>
        rw [step_conditional hf hmore hopens hfind, step_conditional hf h hopens hfind]
        cases i.blame s.pop <;> rfl
    · rw [step_terminator hf hmore, step_terminator hf h]
      rfl

/-- A run that enters no redeem script is the same in front of a frame that has nothing to do. -/
theorem run_append_finished {g : Frame} (hg : g.todo = []) (frames : List Frame) (s : Stack)
    (h : ∀ f t, Reaches ctx ⟨frames, s⟩ ⟨[f], t⟩ → spend? f.todo = none) :
    run ctx (frames ++ [g]) s = run ctx frames s := by
  have hspend : ∀ f fs, frames = f :: fs → fs = [] → spend? f.todo = none := by
    rintro f _ rfl rfl
    exact h f s .refl
  fun_induction run ctx frames s with
  | case1 s =>
    rw [List.nil_append, run_of_step_ok (step_of_todo_eq_nil hg [] s), run]
    unfold events
    rw [hg]
    rfl
  | case2 s f fs failure hstep =>
    rw [List.cons_append]
    refine run_of_step_error ?_
    rw [step_append_frame (hspend f fs rfl), hstep]
    rfl
  | case3 s f fs next hstep ih =>
    have hmore : step ctx f (fs ++ [g]) s = .ok ⟨next.frames ++ [g], next.stack⟩ := by
      rw [step_append_frame (hspend f fs rfl), hstep]
      rfl
    have hnext : ∀ f t, Reaches ctx next ⟨[f], t⟩ → spend? f.todo = none := by
      intro f' t hreach
      exact h f' t (hreach.head ⟨f, fs, rfl, hstep⟩)
    rw [List.cons_append, run_of_step_ok hmore, ih hnext]
    rintro f' _ hframes rfl
    refine hnext f' next.stack ?_
    rw [← hframes]

end Machine

namespace Script

variable {ctx : Context}

/-- The run of the program comes to a state in which its next step is into the redeem script that is
pushed as `raw`. -/
def EntersRedeem (ctx : Context) (program : Script) (raw : Bytes) : Prop :=
  ∃ f s hash, Machine.Reaches ctx (Machine.start program) ⟨[f], s⟩ ∧
    Machine.spend? f.todo = some (raw, hash)

/-- Only programs that end in the spend of a script hash enter a redeem script. -/
theorem EntersRedeem.eq_append {program : Script} {raw : Bytes}
    (h : program.EntersRedeem ctx raw) :
    ∃ before hash, program = before ++ .push raw :: payToScriptHash hash := by
  obtain ⟨f, s, hash, hreach, hspend⟩ := h
  obtain ⟨before, hbefore⟩ := Machine.rootTodo_of_reaches hreach
  obtain ⟨hlength, hf⟩ := Machine.spend?_eq_some_iff.mp hspend
  exact ⟨before, ⟨hash, hlength⟩, by rw [← hf]; exact hbefore.symm⟩

/-- A program that ends in the spend of a script hash enters its redeem script if the instructions
before the spend succeed. -/
theorem entersRedeem_append {before : Script} {raw : Bytes} {hash : FixedBytes 20} {s : Stack}
    (h : before.exec ctx Stack.empty = .ok s) :
    (before ++ .push raw :: payToScriptHash hash).EntersRedeem ctx raw := by
  have hyields : Machine.Yields ctx (Machine.start (before ++ .push raw :: payToScriptHash hash))
      (.push raw :: payToScriptHash hash) [] (before.exec ctx Stack.empty) :=
    Machine.yields_append rfl isPlain_of_mem_spend
      (fun _ _ _ hrest => spend?_append_spend hrest) Stack.empty
  rw [h] at hyields
  obtain ⟨g, hg, hreach⟩ := hyields
  exact ⟨g, s, hash.val, hreach, by rw [hg, spend?_spend]⟩

end Script

end CoinSpend
