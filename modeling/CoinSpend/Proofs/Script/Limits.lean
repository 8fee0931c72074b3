import CoinSpend.Proofs.Script.Exec
import CoinSpend.Proofs.Script.Unlimited
import Mathlib

/-!
# The limits of the stacks

A run without limits lets every instruction put on the stacks what it likes. A run does the same as
long as the stacks keep to the limits, and it fails at the step that would break one of them. So the
limits hold in every state that a run comes to, whichever frame it is in, and a run that could only
go on above them ends in a failure.

Results:
* `Machine.step_eq_enforceLimits`: a step against a step without limits.
* `Machine.withinLimits_of_reaches`, `Machine.reaches_or_run_eq_error`: a run is a run without
  limits that keeps to them, or it ends at one of them.
* `Script.run_withinLimits`: the limits hold throughout a run, and breaking them ends it.
-/

namespace CoinSpend

variable {ctx : Context}

namespace Instruction

/-- The stacks after an instruction that is no part of a conditional, if there were no limits. -/
def execUnlimited (ctx : Context) (i : Instruction) (s : Stack) : Except Failure Stack :=
  i.blame <| match i with
    | op code => Opcode.executeUnlimited ctx code s
    | push data => .ok (s.put data)

theorem blame_bind {α β : Type} (i : Instruction) (x : Except ScriptError α)
    (f : α → Except ScriptError β) : i.blame (x >>= f) = i.blame x >>= fun a => i.blame (f a) := by
  cases x <;> rfl

theorem exec_eq_enforceLimits {s : Stack} (i : Instruction) (h : s.WithinLimits) :
    i.exec ctx s = i.execUnlimited ctx s >>= fun t => i.blame t.enforceLimits := by
  unfold exec execUnlimited
  rw [← blame_bind]
  cases i with
  | op code => exact congrArg _ (Opcode.execute_eq_enforceLimits code h)
  | push data => exact congrArg _ (h.push_eq data)

end Instruction

namespace Machine

variable {f : Frame} {fs : List Frame} {s : Stack} {m m' next : Machine}

/-! ## Step by step -/

/-- One step of a run without limits. Only instructions that put elements on the stacks differ from
those of a run with limits. -/
def stepUnlimited (ctx : Context) (f : Frame) (fs : List Frame) (s : Stack) :
    Except Failure Machine :=
  match f.todo with
  | [] => step ctx f fs s
  | i :: rest =>
    if i.isPlain ∧ (fs = [] → spend? f.todo = none) then
      i.execUnlimited ctx s >>= fun s => .ok ⟨f.advance 1 rest :: fs, s⟩
    else step ctx f fs s

/-- A state, if its stacks keep to the limits. The frame that was run is blamed otherwise. -/
def enforceLimits (f : Frame) (m : Machine) : Except Failure Machine :=
  match m.stack.enforceLimits with
  | .error e => .error ⟨e, f.todo.head?.bind Instruction.code?⟩
  | .ok _ => .ok m

theorem enforceLimits_eq_ok_iff :
    enforceLimits f m = .ok next ↔ m.stack.WithinLimits ∧ next = m := by
  unfold enforceLimits
  constructor
  · intro h
    split at h
    · cases h
    · next hstack => exact ⟨(Stack.enforceLimits_eq_ok_iff.mp hstack).1, (Except.ok.inj h).symm⟩
  · rintro ⟨hm, rfl⟩
    rw [hm.enforceLimits]

theorem exists_enforceLimits_error (f : Frame) (h : ¬ m.stack.WithinLimits) :
    ∃ code, enforceLimits f m = .error ⟨.pushSize, code⟩ ∨
      enforceLimits f m = .error ⟨.stackSize, code⟩ := by
  obtain ⟨e, he, hcause⟩ := Stack.exists_enforceLimits_error h
  refine ⟨f.todo.head?.bind Instruction.code?, ?_⟩
  unfold enforceLimits
  rw [he]
  rcases hcause with rfl | rfl
  · exact .inl rfl
  · exact .inr rfl

theorem stepUnlimited_plain {i : Instruction} {rest : Script} (hf : f.todo = i :: rest)
    (hspend : fs = [] → spend? f.todo = none) (hplain : i.isPlain = true) (s : Stack) :
    stepUnlimited ctx f fs s =
      i.execUnlimited ctx s >>= fun s => .ok ⟨f.advance 1 rest :: fs, s⟩ := by
  unfold stepUnlimited
  split
  · next hnil => cases hnil.symm.trans hf
  · next hcons =>
    cases hcons.symm.trans hf
    exact if_pos ⟨hplain, hspend⟩

theorem stepUnlimited_control (h : ∀ i rest, f.todo = i :: rest → i.isPlain = true →
    ¬ (fs = [] → spend? f.todo = none)) (s : Stack) :
    stepUnlimited ctx f fs s = step ctx f fs s := by
  unfold stepUnlimited
  split
  · rfl
  · next i rest hf => exact if_neg fun hboth => h i rest hf hboth.1 hboth.2

/-- Steps that only choose what is run next take at most an element off the stack. -/
theorem withinLimits_of_step_control (hs : s.WithinLimits)
    (hcontrol : ∀ i rest, f.todo = i :: rest → i.isPlain = true →
      ¬ (fs = [] → spend? f.todo = none))
    (h : step ctx f fs s = .ok next) : next.stack.WithinLimits := by
  cases stepped_of_step h with
  | left => exact hs
  | executed hf hspend hplain => exact absurd hspend (hcontrol _ _ hf hplain)
  | branched _ _ _ _ hpop => exact (hs.of_pop hpop).2.toWithinLimits
  | entered => exact hs

/-- On stacks within the limits, a step does what it would do without limits, if the stacks keep to
them. -/
theorem step_eq_enforceLimits (h : s.WithinLimits) :
    step ctx f fs s = stepUnlimited ctx f fs s >>= enforceLimits f := by
  by_cases hplain : ∃ i rest, f.todo = i :: rest ∧ i.isPlain = true ∧
      (fs = [] → spend? f.todo = none)
  · obtain ⟨i, rest, hf, hplain, hspend⟩ := hplain
    rw [step_plain hf hspend hplain, stepUnlimited_plain hf hspend hplain,
      i.exec_eq_enforceLimits h, bind_assoc, bind_assoc]
    refine bind_congr fun t => ?_
    rw [ok_bind]
    unfold enforceLimits
    rw [hf]
    cases hlimits : t.enforceLimits with
    | error e => rfl
    | ok u =>
      obtain ⟨-, rfl⟩ := Stack.enforceLimits_eq_ok_iff.mp hlimits
      rfl
  · have hcontrol : ∀ i rest, f.todo = i :: rest → i.isPlain = true →
        ¬ (fs = [] → spend? f.todo = none) := by
      intro i rest hf hi hspend
      exact hplain ⟨i, rest, hf, hi, hspend⟩
    rw [stepUnlimited_control hcontrol]
    cases hstep : step ctx f fs s with
    | error failure => rfl
    | ok next =>
      exact (enforceLimits_eq_ok_iff.mpr
        ⟨withinLimits_of_step_control h hcontrol hstep, rfl⟩).symm

/-! ## From state to state -/

/-- The run without limits goes from one state to the other in one step. -/
def StepsToUnlimited (ctx : Context) (m next : Machine) : Prop :=
  ∃ f fs, m.frames = f :: fs ∧ stepUnlimited ctx f fs m.stack = .ok next

/-- The run without limits gets from one state to the other. -/
abbrev ReachesUnlimited (ctx : Context) : Machine → Machine → Prop :=
  Relation.ReflTransGen (StepsToUnlimited ctx)

/-- From stacks within the limits, a step goes where it would go without limits, and keeps to them.
-/
theorem stepsTo_iff (h : m.stack.WithinLimits) :
    StepsTo ctx m next ↔ StepsToUnlimited ctx m next ∧ next.stack.WithinLimits := by
  unfold StepsTo StepsToUnlimited
  simp only [step_eq_enforceLimits h, bind_eq_ok_iff, enforceLimits_eq_ok_iff]
  constructor
  · rintro ⟨f, fs, hframes, _, hstep, hnext, rfl⟩
    exact ⟨⟨f, fs, hframes, hstep⟩, hnext⟩
  · rintro ⟨⟨f, fs, hframes, hstep⟩, hnext⟩
    exact ⟨f, fs, hframes, next, hstep, hnext, rfl⟩

/-- The limits hold wherever a run comes to. -/
theorem withinLimits_of_reaches (h : m.stack.WithinLimits) (hreach : Reaches ctx m m') :
    m'.stack.WithinLimits := by
  induction hreach with
  | refl => exact h
  | tail _ hstep ih => exact ((stepsTo_iff ih).mp hstep).2

/-- A run comes to no state that it would not come to without limits. -/
theorem reachesUnlimited_of_reaches (h : m.stack.WithinLimits) (hreach : Reaches ctx m m') :
    ReachesUnlimited ctx m m' := by
  induction hreach with
  | refl => exact .refl
  | tail hreach hstep ih =>
    exact ih.tail ((stepsTo_iff (withinLimits_of_reaches h hreach)).mp hstep).1

/-- A step that would break a limit ends the run. -/
theorem run_eq_error_of_stepsToUnlimited (h : m.stack.WithinLimits)
    (hstep : StepsToUnlimited ctx m next) (hnext : ¬ next.stack.WithinLimits) :
    ∃ code, (run ctx m.frames m.stack).value = .error ⟨.pushSize, code⟩ ∨
      (run ctx m.frames m.stack).value = .error ⟨.stackSize, code⟩ := by
  obtain ⟨f, fs, hframes, hstep⟩ := hstep
  obtain ⟨code, herror⟩ := exists_enforceLimits_error f hnext
  refine ⟨code, ?_⟩
  rw [hframes, run_value, step_eq_enforceLimits h, hstep, ok_bind]
  rcases herror with herror | herror
  · exact .inl (by rw [herror]; rfl)
  · exact .inr (by rw [herror]; rfl)

/-- Where a run would come to without limits, it comes with them, or it ends at one of them. -/
theorem reaches_or_run_eq_error (h : m.stack.WithinLimits) (hreach : ReachesUnlimited ctx m m') :
    Reaches ctx m m' ∨ ∃ code, (run ctx m.frames m.stack).value = .error ⟨.pushSize, code⟩ ∨
      (run ctx m.frames m.stack).value = .error ⟨.stackSize, code⟩ := by
  induction hreach with
  | refl => exact .inl .refl
  | @tail m₁ m₂ _ hstep ih =>
    rcases ih with hreach | herror
    · have hm₁ := withinLimits_of_reaches h hreach
      by_cases hm₂ : m₂.stack.WithinLimits
      · exact .inl (hreach.tail ((stepsTo_iff hm₁).mpr ⟨hstep, hm₂⟩))
      · rw [run_value_of_reaches hreach]
        exact .inr (run_eq_error_of_stepsToUnlimited hm₁ hstep hm₂)
    · exact .inr herror

/-- A push of an element that is too long ends the run, also if it is the push of a redeem script,
which puts nothing on the stack. -/
theorem run_eq_error_of_long_push {data : Bytes} {rest : Script}
    (hreach : Reaches ctx m ⟨f :: fs, s⟩) (hf : f.todo = .push data :: rest)
    (hlong : Stack.elementLimit < data.length) :
    (run ctx m.frames m.stack).value = .error ⟨.pushSize, none⟩ := by
  have hstep : step ctx f fs s = .error ⟨.pushSize, none⟩ := by
    by_cases hspend : fs = [] → spend? f.todo = none
    · rw [step_plain hf hspend rfl, Instruction.exec_push_of_long hlong]
      rfl
    · rw [Classical.not_imp] at hspend
      obtain ⟨rfl, hsome⟩ := hspend
      obtain ⟨⟨raw, hash⟩, hsome⟩ := Option.ne_none_iff_exists'.mp hsome
      obtain ⟨_, hspent⟩ := spend?_eq_some_iff.mp hsome
      cases hf.symm.trans hspent
      rw [step_spend hsome]
      exact if_pos hlong
  rw [run_value_of_reaches hreach, run_value, hstep]
  rfl

end Machine

namespace Script

/-- Wherever the run of a program comes to, it would come to without limits as well, and the stacks
together hold at most 1000 elements, none of which is longer than 520 bytes. If without limits the
run would come to stacks that break one of them, then the run ends in a failure of that kind. So
does a run that comes to a push of more than 520 bytes, whether or not these are put on the stack.
-/
theorem run_withinLimits (ctx : Context) (program : Script) :
    (∀ m, Machine.Reaches ctx (Machine.start program) m →
      Machine.ReachesUnlimited ctx (Machine.start program) m ∧
      m.stack.main.length + m.stack.alt.length ≤ 1000 ∧
        ∀ element ∈ m.stack.main ++ m.stack.alt, element.length ≤ 520) ∧
    (∀ m, Machine.ReachesUnlimited ctx (Machine.start program) m →
      1000 < m.stack.main.length + m.stack.alt.length ∨
        (∃ element ∈ m.stack.main ++ m.stack.alt, 520 < element.length) →
      ∃ code, (program.run ctx).value = .error ⟨.pushSize, code⟩ ∨
        (program.run ctx).value = .error ⟨.stackSize, code⟩) ∧
    ∀ f fs s data rest, Machine.Reaches ctx (Machine.start program) ⟨f :: fs, s⟩ →
      f.todo = .push data :: rest → 520 < data.length →
      (program.run ctx).value = .error ⟨.pushSize, none⟩ := by
  have hstart : (Machine.start program).stack.WithinLimits := Stack.withinLimits_empty
  refine ⟨?_, ?_, ?_⟩
  · intro m hreach
    have hm := Machine.withinLimits_of_reaches hstart hreach
    exact ⟨Machine.reachesUnlimited_of_reaches hstart hreach, hm.height,
      List.forall_mem_append.mpr ⟨hm.main, hm.alt⟩⟩
  · intro m hreach hbreaks
    refine (Machine.reaches_or_run_eq_error hstart hreach).resolve_left fun hreach => ?_
    have hm := Machine.withinLimits_of_reaches hstart hreach
    rcases hbreaks with hheight | ⟨element, helement, hlong⟩
    · exact Nat.not_lt.mpr hm.height hheight
    · exact Nat.not_lt.mpr (List.forall_mem_append.mpr ⟨hm.main, hm.alt⟩ element helement) hlong
  · intro f fs s data rest hreach hf hlong
    exact Machine.run_eq_error_of_long_push hreach hf hlong

/-- An element with a byte more than it may have. -/
def longElement : Bytes := List.replicate 521 0

theorem run_longElement :
    Machine.ReachesUnlimited (.plain 0) (Machine.start [.push longElement])
        ⟨[⟨.program, 1, []⟩], ⟨[longElement], []⟩⟩ ∧
      (∃ element ∈ [longElement] ++ [], 520 < element.length) ∧
      (∃ code, (Script.run (.plain 0) [.push longElement]).value = .error ⟨.pushSize, code⟩ ∨
        (Script.run (.plain 0) [.push longElement]).value = .error ⟨.stackSize, code⟩) ∧
      (Script.run (.plain 0) [.push longElement]).value = .error ⟨.pushSize, none⟩ := by
  have hreach : Machine.ReachesUnlimited (.plain 0) (Machine.start [.push longElement])
      ⟨[⟨.program, 1, []⟩], ⟨[longElement], []⟩⟩ :=
    .single ⟨⟨.program, 0, [.push longElement]⟩, [], rfl, rfl⟩
  have hlong : 520 < longElement.length := by
    rw [longElement, List.length_replicate]
    decide
  have hbreaks : ∃ element ∈ [longElement] ++ [], 520 < element.length :=
    ⟨longElement, List.mem_cons_self, hlong⟩
  obtain ⟨-, hunlimited, hpush⟩ := run_withinLimits (.plain 0) [.push longElement]
  exact ⟨hreach, hbreaks, hunlimited _ hreach (.inr hbreaks),
    hpush _ [] Stack.empty longElement [] .refl rfl hlong⟩

end Script

end CoinSpend
