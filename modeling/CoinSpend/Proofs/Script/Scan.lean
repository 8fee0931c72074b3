import CoinSpend.Proofs.Script.Split
import Mathlib

/-!
# Scanning by index

The instructions of a conditional can be looked for in the script itself, from one index to another,
with a counter for the depth of nesting. Such a scan reads the instruction at each index and counts
down at each end of a conditional, and it would fault where there is no instruction, or where the
counter is at zero. It does neither between indices of the script, and the ranges that it gives are
the branches of the conditional.

Results:
* `Script.slice_eq_cons`, `Script.slice_of_append`: parts of a script by index.
* `Script.scan_eq`: a scan goes to the first instruction that ends a branch.
* `Script.scanBranches_eq`: the scan for the branches of a conditional.
-/

namespace CoinSpend.Script

open Instruction (terminator)

/-! ## Parts of a script -/

/-- The instructions from one index up to, and without, another. -/
def slice (script : Script) (start stop : ℕ) : Script := (script.drop start).take (stop - start)

variable {script front back : Script} {start stop : ℕ} {i : Instruction}

theorem slice_length (script : Script) (start : ℕ) :
    script.slice start script.length = script.drop start := by
  rw [slice, List.take_of_length_le (List.length_drop ..).le]

theorem slice_eq_nil (h : stop ≤ start) : script.slice start stop = [] := by
  rw [slice, Nat.sub_eq_zero_of_le h, List.take_zero]

theorem length_slice (h : stop ≤ script.length) :
    (script.slice start stop).length = stop - start := by
  rw [slice, List.length_take_of_le]
  rw [List.length_drop]
  exact Nat.sub_le_sub_right h start

theorem slice_eq_cons (hstop : stop ≤ script.length) (hstart : start < stop) :
    ∃ i, script[start]? = some i ∧
      script.slice start stop = i :: script.slice (start + 1) stop := by
  have hlt : start < script.length := hstart.trans_le hstop
  refine ⟨_, List.getElem?_eq_getElem hlt, ?_⟩
  have hcount : stop - start = stop - (start + 1) + 1 := by omega
  rw [slice, List.drop_eq_getElem_cons hlt, hcount, List.take_succ_cons]
  rfl

/-- The two parts of a slice are slices themselves. -/
theorem slice_of_append (h : script.slice start stop = front ++ back) :
    script.slice start (start + front.length) = front ∧
      script.slice (start + front.length) stop = back := by
  have hfront : front = (script.slice start stop).take front.length := by rw [h, List.take_left]
  have hback : back = (script.slice start stop).drop front.length := by rw [h, List.drop_left]
  have hlength : front.length ≤ stop - start := by
    have hle := List.length_take_le (stop - start) (script.drop start)
    rw [← slice, h, List.length_append] at hle
    omega
  constructor
  · rw [slice, List.take_take, min_eq_left hlength] at hfront
    rw [slice, Nat.add_sub_cancel_left, ← hfront]
  · rw [slice, List.drop_take, List.drop_drop, Nat.sub_sub] at hback
    rw [slice, ← hback]

/-- What stands in a slice stands at an index of the script, between two slices. -/
theorem slice_of_append_cons (h : script.slice start stop = front ++ i :: back) :
    start + front.length < stop ∧ script[start + front.length]? = some i ∧
      script.slice start (start + front.length) = front ∧
      script.slice (start + front.length + 1) stop = back := by
  obtain ⟨hfront, hback⟩ := slice_of_append h
  have hlt : start + front.length < stop := by
    by_contra hle
    rw [slice_eq_nil (Nat.not_lt.mp hle)] at hback
    cases hback
  have hhead : (script.slice (start + front.length) stop)[0]? = some i := by
    rw [hback]
    rfl
  rw [slice, List.getElem?_take_of_lt (Nat.sub_pos_of_lt hlt), List.getElem?_drop] at hhead
  rw [← List.singleton_append] at hback
  exact ⟨hlt, hhead, hfront, (slice_of_append hback).2⟩

/-! ## Branches by index -/

/-- What makes a scan or a run by index stop, though the program did nothing wrong. -/
inductive Fault where
  /-- There is no instruction at the index. -/
  | index
  /-- The counter for the depth is at zero and should be counted down. -/
  | depth
deriving DecidableEq, Repr

/-- The branches of a conditional, each from an index up to another, and where its end is. Model of
`Conditional`. -/
structure BranchRanges where
  first : ℕ × ℕ
  second : ℕ × ℕ
  endIf : ℕ
deriving DecidableEq, Repr

/-- The branches between `start` and the end of the conditional, which may be separated. -/
def BranchRanges.of (start endIf : ℕ) : Option ℕ → BranchRanges
  | none => ⟨(start, endIf), (endIf, endIf), endIf⟩
  | some separator => ⟨(start, separator), (separator + 1, endIf), endIf⟩

/-- The branch that is run, which is the first one if `first` holds. -/
def BranchRanges.choose (r : BranchRanges) (first : Bool) : ℕ × ℕ :=
  if first then r.first else r.second

/-- Looks from index `i` on for the end of the conditional whose body starts at `start`, where
`depth` conditionals are open, and maybe a separator of this one was seen. Model of the loop of
`find_conditional`. -/
def scan (script : Script) (start stop depth i : ℕ) (separator : Option ℕ) :
    Except Fault (Except ScriptError BranchRanges) :=
  if i < stop then
    match script[i]? with
    | none => .error .index
    | some instruction =>
      if instruction.opens then scan script start stop (depth + 1) (i + 1) separator
      else if instruction.separates ∧ depth = 1 then
        match separator with
        | some _ => .ok (.error .unbalancedConditional)
        | none => scan script start stop depth (i + 1) (some i)
      else if instruction.closes then
        match depth with
        | 0 => .error .depth
        | 1 => .ok (.ok (.of start i separator))
        | depth + 1 => scan script start stop depth (i + 1) separator
      else scan script start stop depth (i + 1) separator
  else .ok (.error .unbalancedConditional)
termination_by stop - i

/-- The branches of the conditional whose body starts at `start`. Model of `find_conditional`. -/
def scanBranches (script : Script) (start stop : ℕ) :
    Except Fault (Except ScriptError BranchRanges) :=
  scan script start stop 1 start none

/-! ## One scan -/

section Steps

variable {depth index : ℕ} {separator : Option ℕ}

theorem scan_of_le (h : stop ≤ index) :
    scan script start stop depth index separator = .ok (.error .unbalancedConditional) := by
  unfold scan
  rw [if_neg (Nat.not_lt.mpr h)]

theorem scan_opens (hindex : index < stop) (hi : script[index]? = some i)
    (hopens : i.opens = true) : scan script start stop depth index separator =
      scan script start stop (depth + 1) (index + 1) separator := by
  conv_lhs => unfold scan
  simp only [hindex, hi, hopens, if_true]

theorem scan_plain (hindex : index < stop) (hi : script[index]? = some i)
    (hplain : i.isPlain = true) : scan script start stop depth index separator =
      scan script start stop depth (index + 1) separator := by
  obtain ⟨hopens, hseparates, hcloses⟩ := Instruction.isPlain_iff.mp hplain
  conv_lhs => unfold scan
  simp only [hindex, hi, hopens, hseparates, hcloses, if_true, false_and, if_false,
    Bool.false_eq_true]

end Steps

/-- How a scan goes on, given what stands in front of the first instruction that ends a branch. -/
def resume (script : Script) (start stop index : ℕ) (separator : Option ℕ) :
    Option (Script × Bool × Script) → Except Fault (Except ScriptError BranchRanges)
  | none => .ok (.error .unbalancedConditional)
  | some (body, true, _) => .ok (.ok (.of start (index + body.length) separator))
  | some (body, false, _) =>
    match separator with
    | some _ => .ok (.error .unbalancedConditional)
    | none => scan script start stop 1 (index + body.length + 1) (some (index + body.length))

theorem resume_prepend (index : ℕ) (separator : Option ℕ)
    (found : Option (Script × Bool × Script)) :
    resume script start stop index separator (Branches.prepend [i] found) =
      resume script start stop (index + 1) separator found := by
  have hlength : ∀ body : Script, index + ([i] ++ body).length = index + 1 + body.length := by
    intro body
    rw [List.length_append, List.length_singleton, Nat.add_assoc]
  rcases found with _ | ⟨body, _ | _, rest⟩
  · rfl
  · simp only [Branches.prepend_some, resume, hlength]
  · simp only [Branches.prepend_some, resume, hlength]

/-- Between indices of the script, a scan goes to the first instruction that ends a branch. -/
theorem scan_eq (hstop : stop ≤ script.length) (depth index : ℕ) (separator : Option ℕ) :
    scan script start stop (depth + 1) index separator =
      resume script start stop index separator
        (Branches.split depth (script.slice index stop)) := by
  -- on what is left of the scanned part, which is empty exactly where the scan stops
  induction hslice : script.slice index stop generalizing depth index separator with
  | nil =>
    have hle : stop ≤ index := by
      have hlength : (script.slice index stop).length = stop - index := length_slice hstop
      rw [hslice, List.length_nil] at hlength
      omega
    rw [scan_of_le hle]
    rfl
  | cons i rest ih =>
    have hindex : index < stop := by
      by_contra hle
      rw [slice_eq_nil (Nat.not_lt.mp hle)] at hslice
      cases hslice
    obtain ⟨i', hi, hcons⟩ := slice_eq_cons hstop hindex
    obtain ⟨rfl, hrest⟩ := List.cons.inj (hslice.symm.trans hcons)
    have hgo : ∀ depth separator, scan script start stop (depth + 1) (index + 1) separator =
        resume script start stop index separator
          (Branches.prepend [i] (Branches.split depth rest)) := by
      intro depth separator
      rw [resume_prepend]
      exact ih depth (index + 1) separator hrest.symm
    rcases i.kind with hplain | hopens | ⟨ended, rfl⟩
    · rw [scan_plain hindex hi hplain, Branches.split_plain hplain, hgo]
    · rw [scan_opens hindex hi hopens, Branches.split_opens hopens, hgo]
    · conv_lhs => unfold scan
      simp only [hindex, hi, if_true]
      cases depth with
      | zero =>
        rw [Branches.split_zero_terminator]
        cases ended with
        | true => rfl
        | false => cases separator <;> rfl
      | succ depth =>
        cases ended with
        | true => exact hgo depth separator
        | false => exact hgo (depth + 1) separator

/-! ## The branches of a conditional -/

/-- The ranges are those of the branches in the script, in front of the end of the conditional, and
that end is an instruction of the scanned part. -/
structure BranchRanges.Locates (r : BranchRanges) (script : Script) (start stop : ℕ)
    (b : Branches) : Prop where
  first_start : r.first.1 = start
  first_le : r.first.1 ≤ r.first.2
  first_stop : r.first.2 ≤ r.endIf
  second_start : r.second.1 = start + b.secondOffset
  second_le : r.second.1 ≤ r.second.2
  second_stop : r.second.2 ≤ r.endIf
  endIf_lt : r.endIf < stop
  span : r.endIf + 1 = start + b.span
  closes : script[r.endIf]? = some (terminator true)
  first : script.slice r.first.1 r.first.2 = b.first
  second : script.slice r.second.1 r.second.2 = b.second
  after : script.slice (r.endIf + 1) stop = b.after

/-- A scan for the branches of a conditional finds what splitting its body gives. -/
theorem scanBranches_eq (hstop : stop ≤ script.length) :
    (Branches.find? (script.slice start stop) = none →
      scanBranches script start stop = .ok (.error .unbalancedConditional)) ∧
    ∀ b, Branches.find? (script.slice start stop) = some b →
      ∃ r, scanBranches script start stop = .ok (.ok r) ∧ r.Locates script start stop b := by
  rw [scanBranches, scan_eq hstop]
  unfold Branches.find?
  cases hfirst : Branches.split 0 (script.slice start stop) with
  | none => exact ⟨fun _ => rfl, by simp⟩
  | some found =>
    obtain ⟨first, ended, rest⟩ := found
    obtain ⟨hlt, hat, hslice, hrest⟩ := slice_of_append_cons (Branches.eq_append_of_split hfirst)
    cases ended with
    | true =>
      refine ⟨by simp, fun b hb => ⟨_, rfl, ?_⟩⟩
      cases hb
      exact ⟨rfl, Nat.le_add_right .., le_rfl, rfl, le_rfl, le_rfl, hlt, rfl, hat, hslice,
        slice_eq_nil le_rfl, hrest⟩
    | false =>
      -- behind the separator, the second branch is looked for in the same way
      simp only [resume, scan_eq hstop, hrest]
      cases hsecond : Branches.split 0 rest with
      | none => exact ⟨fun _ => rfl, by simp⟩
      | some found =>
        obtain ⟨second, ended, after⟩ := found
        rw [← hrest] at hsecond
        obtain ⟨hlt₂, hat₂, hslice₂, hafter⟩ :=
          slice_of_append_cons (Branches.eq_append_of_split hsecond)
        cases ended with
        | false => exact ⟨fun _ => rfl, by simp⟩
        | true =>
          refine ⟨by simp, fun b hb => ⟨_, rfl, ?_⟩⟩
          cases hb
          exact ⟨rfl, Nat.le_add_right .., by simp only [BranchRanges.of]; omega, rfl,
            Nat.le_add_right .., le_rfl, hlt₂, by simp only [BranchRanges.of]; omega, hat₂, hslice,
            hslice₂, hafter⟩

end CoinSpend.Script
