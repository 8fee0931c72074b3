import CoinSpend.Proofs.Script.Multisig
import CoinSpend.Proofs.Script.Number
import CoinSpend.Proofs.Script.Unlimited
import Mathlib

/-!
# Rearrangements as copies and moves of single elements

An opcode that rearranges the topmost elements does the same as a few that copy or move up the
element at a depth, each behind the opcode that pushes the depth, or as two other rearrangements.
The depth is one more element for a moment. Where an element is copied, there must be room for the
copy anyway; where one is moved, there must be room for the depth.

A sequence of opcodes is compared with a function on the elements of the main stack. It fails where
the function has no value and where the result is too high for the limits. Two such sequences make
up another one, unless the stacks are too high between them and no longer in the end.

Results:
* `Operation.apply_shuffle_eq_steps`, `Opcode.execute_shuffle`: rearrangements, one primitive after
  the other.
* `Opcode.Rearranges`, `Opcode.Rearranges.append`: sequences of opcodes as functions on elements.
* `Opcode.rearranges_expansion`, `Opcode.execute_expansion`: the opcodes and their expansions.
-/

namespace CoinSpend

/-! ## Rearrangements by primitives -/

namespace Stack

variable {s t : Stack} {element : Bytes}

/-- Copies the topmost elements, from the lowest of them on. Model of `duplicate_top`. -/
def duplicateTop (s : Stack) (count : ℕ) : Except ScriptError Stack := do
  s.require count
  (List.replicate count (count - 1)).foldlM (fun s depth => do s.push (← s.top depth)) s

theorem push_of_length_le (s : Stack) (h : element.length ≤ elementLimit) :
    s.push element = (s.put element).checkSize :=
  if_pos h

/-- Stacks that are too high do not become less high. -/
theorem checkSize_bind {f : Stack → Except ScriptError Stack} (hf : f s = t.checkSize)
    (hsize : s.size ≤ t.size) : s.checkSize >>= f = t.checkSize := by
  unfold checkSize at hf ⊢
  by_cases hs : s.size ≤ sizeLimit
  · rw [if_pos hs, ok_bind, hf]
  · have ht : ¬ t.size ≤ sizeLimit := fun ht => hs (hsize.trans ht)
    rw [if_neg hs, if_neg ht]
    rfl

theorem push_bind_push {second : Bytes} (s : Stack) (h : element.length ≤ elementLimit)
    (hsecond : second.length ≤ elementLimit) :
    (s.push element >>= fun t => t.push second) = ((s.put element).put second).checkSize := by
  rw [push_of_length_le s h]
  refine checkSize_bind (push_of_length_le _ hsecond) ?_
  simp only [put, size, List.length_cons]
  omega

/-- With `i` of the topmost elements copied, the next one to copy has come to the depth of the
lowest of them. -/
theorem foldlM_duplicate (h : s.WithinLimits) {count i : ℕ} (hcount : count ≤ s.main.length)
    (hi : i ≤ count) :
    (List.replicate i (count - 1)).foldlM (fun s depth => do s.push (← s.top depth)) s =
      checkSize ⟨(s.main.take count).drop (count - i) ++ s.main, s.alt⟩ := by
  induction i with
  | zero =>
    rw [Nat.sub_zero, List.drop_of_length_le (List.length_take_le _ _)]
    exact (if_pos h.height).symm
  | succ i ih =>
    have hlt : count - (i + 1) < (s.main.take count).length := by
      rw [List.length_take]
      omega
    have hdrop := List.drop_eq_getElem_cons hlt
    rw [show count - (i + 1) + 1 = count - i by omega] at hdrop
    rw [List.replicate_succ', List.foldlM_append, ih (Nat.le_of_succ_le hi), hdrop]
    have hlength : ((s.main.take count).drop (count - i)).length = i := by
      rw [List.length_drop, List.length_take]
      omega
    -- above the copies, the lowest element to copy is `i` deeper than in the beginning
    have hnext : ((s.main.take count).drop (count - i) ++ s.main)[count - 1]? =
        some (s.main.take count)[count - (i + 1)] := by
      rw [List.getElem?_append_right (by omega), hlength, List.getElem_take,
        show count - 1 - i = count - (i + 1) by omega]
      exact List.getElem?_eq_getElem _
    have hshort := h.main _ (List.mem_of_mem_take (List.getElem_mem hlt))
    refine checkSize_bind ?_ (by simp [size])
    rw [List.foldlM_cons, top, hnext]
    exact (bind_pure _).trans (push_of_length_le _ hshort)

theorem duplicateTop_eq (h : s.WithinLimits) (count : ℕ) (hcount : count ≤ s.main.length) :
    s.duplicateTop count = checkSize ⟨s.main.take count ++ s.main, s.alt⟩ := by
  have hcopies := foldlM_duplicate h hcount le_rfl
  rw [Nat.sub_self, List.drop_zero] at hcopies
  rw [duplicateTop, require, if_neg (Nat.not_lt.mpr hcount), ok_bind, hcopies]

/-- Stacks that are no higher are not too high either. -/
theorem WithinLimits.checkSize_eq (h : s.WithinLimits) (hsize : t.size ≤ s.size) :
    t.checkSize = .ok t :=
  if_pos (hsize.trans h.height)

end Stack

namespace Shuffle

/-- A rearrangement, one primitive after the other. Model of the branches of `execute` that move
elements. -/
def steps : Shuffle → Stack → Except ScriptError Stack
  | drop, s => do
    let (_, s) ← s.pop
    return s
  | drop2, s => do
    s.require 2
    let (_, s) ← s.pop
    let (_, s) ← s.pop
    return s
  | dup, s => s.duplicateTop 1
  | dup2, s => s.duplicateTop 2
  | dup3, s => s.duplicateTop 3
  | nip, s => do
    let (_, s) ← s.remove 1
    return s
  | copyBelow, s => do s.push (← s.top 1)
  | copyBelow2, s => do
    s.require 4
    let first ← s.top 3
    let second ← s.top 2
    let s ← s.push first
    s.push second
  | rot, s => do
    let (element, s) ← s.remove 2
    s.push element
  | rot2, s => do
    s.require 6
    let (first, s) ← s.remove 5
    let (second, s) ← s.remove 4
    let s ← s.push first
    s.push second
  | swap, s => s.swap 0 1
  | swap2, s => do
    s.require 4
    let s ← s.swap 3 1
    s.swap 2 0
  | tuck, s => do
    s.require 2
    let element ← s.top 0
    s.insert 2 element

end Shuffle

namespace Operation

open Stack

variable {ctx : Context} {s : Stack} {kind : Shuffle}

/-- What a rearrangement comes to is what its primitives come to, errors included. -/
theorem apply_shuffle_eq_steps (h : s.WithinLimits) :
    (shuffle kind).apply ctx s = kind.steps s := by
  obtain ⟨main, alt⟩ := s
  cases kind with
  | drop =>
    rcases main with _ | ⟨a, rest⟩
    · rfl
    · exact h.checkSize_eq (by simp [Stack.size])
  | drop2 =>
    rcases main with _ | ⟨a, _ | ⟨b, rest⟩⟩
    · rfl
    · rfl
    · exact h.checkSize_eq (by simp [Stack.size]; omega)
  | dup =>
    rcases main with _ | ⟨a, rest⟩
    · rfl
    · exact (duplicateTop_eq h 1 (by simp)).symm
  | dup2 =>
    rcases main with _ | ⟨a, _ | ⟨b, rest⟩⟩
    · rfl
    · rfl
    · exact (duplicateTop_eq h 2 (by simp)).symm
  | dup3 =>
    rcases main with _ | ⟨a, _ | ⟨b, _ | ⟨c, rest⟩⟩⟩
    · rfl
    · rfl
    · rfl
    · exact (duplicateTop_eq h 3 (by simp)).symm
  | nip =>
    rcases main with _ | ⟨a, _ | ⟨b, rest⟩⟩
    · rfl
    · rfl
    · exact h.checkSize_eq (by simp [Stack.size])
  | copyBelow =>
    rcases main with _ | ⟨a, _ | ⟨b, rest⟩⟩
    · rfl
    · rfl
    · have hb := h.main b (by simp)
      exact (push_of_length_le ⟨a :: b :: rest, alt⟩ hb).symm
  | copyBelow2 =>
    rcases main with _ | ⟨a, _ | ⟨b, _ | ⟨c, _ | ⟨d, rest⟩⟩⟩⟩
    · rfl
    · rfl
    · rfl
    · rfl
    · have hc := h.main c (by simp)
      have hd := h.main d (by simp)
      exact (push_bind_push ⟨a :: b :: c :: d :: rest, alt⟩ hd hc).symm
  | rot =>
    rcases main with _ | ⟨a, _ | ⟨b, _ | ⟨c, rest⟩⟩⟩
    · rfl
    · rfl
    · rfl
    · have hc := h.main c (by simp)
      exact (push_of_length_le ⟨a :: b :: rest, alt⟩ hc).symm
  | rot2 =>
    rcases main with _ | ⟨a, _ | ⟨b, _ | ⟨c, _ | ⟨d, _ | ⟨e, _ | ⟨f, rest⟩⟩⟩⟩⟩⟩
    · rfl
    · rfl
    · rfl
    · rfl
    · rfl
    · rfl
    · have he := h.main e (by simp)
      have hf := h.main f (by simp)
      exact (push_bind_push ⟨a :: b :: c :: d :: rest, alt⟩ hf he).symm
  | swap =>
    rcases main with _ | ⟨a, _ | ⟨b, rest⟩⟩
    · rfl
    · rfl
    · exact h.checkSize_eq (by simp [Stack.size])
  | swap2 =>
    rcases main with _ | ⟨a, _ | ⟨b, _ | ⟨c, _ | ⟨d, rest⟩⟩⟩⟩
    · rfl
    · rfl
    · rfl
    · rfl
    · exact h.checkSize_eq (by simp [Stack.size])
  | tuck => rcases main with _ | ⟨a, _ | ⟨b, rest⟩⟩ <;> rfl

end Operation

/-! ## Sequences of opcodes as functions on elements -/

namespace Stack

/-- The elements with a copy of the one at a depth on top. -/
def copyUp (depth : ℕ) (main : List Bytes) : Option (List Bytes) :=
  main[depth]?.map fun element => element :: main

/-- The elements with the one at a depth moved to the top. -/
def moveUp (depth : ℕ) (main : List Bytes) : Option (List Bytes) :=
  main[depth]?.map fun element => element :: main.eraseIdx depth

theorem sublist_of_copyUp {main moved : List Bytes} {depth : ℕ}
    (h : copyUp depth main = some moved) : main.Sublist moved := by
  obtain ⟨element, -, rfl⟩ := Option.map_eq_some_iff.mp h
  exact List.sublist_cons_self _ _

theorem perm_of_moveUp {main moved : List Bytes} {depth : ℕ}
    (h : moveUp depth main = some moved) : moved.Perm main := by
  obtain ⟨element, helement, rfl⟩ := Option.map_eq_some_iff.mp h
  obtain ⟨hdepth, rfl⟩ := List.getElem?_eq_some_iff.mp helement
  exact List.getElem_cons_eraseIdx_perm hdepth

variable {main moved alt : List Bytes}

theorem WithinLimits.of_perm (h : WithinLimits ⟨main, alt⟩) (hperm : moved.Perm main) :
    WithinLimits ⟨moved, alt⟩ :=
  ⟨(congrArg (· + alt.length) hperm.length_eq).trans_le h.height,
    fun element helement => h.main element (hperm.mem_iff.mp helement), h.alt⟩

theorem HasRoom.of_perm (h : HasRoom ⟨main, alt⟩) (hperm : moved.Perm main) :
    HasRoom ⟨moved, alt⟩ :=
  ⟨h.toWithinLimits.of_perm hperm,
    (congrArg (· + alt.length) hperm.length_eq).trans_lt h.room⟩

theorem hasRoom_of_copyUp {depth : ℕ} (h : copyUp depth main = some moved)
    (hmoved : WithinLimits ⟨moved, alt⟩) : HasRoom ⟨main, alt⟩ := by
  refine hmoved.hasRoom (sublist_of_copyUp h) (List.Sublist.refl _) ?_
  obtain ⟨element, -, rfl⟩ := Option.map_eq_some_iff.mp h
  simp only [size, List.length_cons]
  omega

end Stack

namespace Opcode

open Stack (copyUp moveUp hasRoom_of_copyUp perm_of_moveUp WithinLimits HasRoom)

/-- The stacks after several opcodes. -/
def executeAll (ctx : Context) (codes : List UInt8) (s : Stack) : Except ScriptError Stack :=
  codes.foldlM (fun s code => execute ctx code s) s

variable {ctx : Context} {s t : Stack}

theorem executeAll_cons (code : UInt8) (codes : List UInt8) :
    executeAll ctx (code :: codes) s =
      execute ctx code s >>= fun t => executeAll ctx codes t :=
  List.foldlM_cons

theorem executeAll_singleton (code : UInt8) : executeAll ctx [code] s = execute ctx code s :=
  bind_pure _

theorem executeAll_append (first second : List UInt8) :
    executeAll ctx (first ++ second) s =
      executeAll ctx first s >>= fun t => executeAll ctx second t :=
  List.foldlM_append

/-- On stacks with a property, the opcodes come to a function on the elements of the main stack, as
long as its value has a property as well. -/
def Rearranges (ctx : Context) (codes : List UInt8) (move : List Bytes → Option (List Bytes))
    (Before After : Stack → Prop) : Prop :=
  ∀ ⦃s t⦄, Before s →
    (executeAll ctx codes s = .ok t ↔ move s.main = some t.main ∧ t.alt = s.alt ∧ After t)

namespace Rearranges

variable {codes first second : List UInt8} {move move' : List Bytes → Option (List Bytes)}
  {Before Between After : Stack → Prop}

/-- Opcodes one after the other. Where the elements before and those in the end have the properties
asked of them, those between must have the one asked of them. -/
theorem append (hfirst : Rearranges ctx first move Before Between)
    (hsecond : Rearranges ctx second move' Between After)
    (hbetween : ∀ {main moved moved' alt}, move main = some moved → move' moved = some moved' →
      Before ⟨main, alt⟩ → After ⟨moved', alt⟩ → Between ⟨moved, alt⟩) :
    Rearranges ctx (first ++ second) (fun main => move main >>= move') Before After := by
  intro s t hs
  rw [executeAll_append, bind_eq_ok_iff]
  constructor
  · rintro ⟨u, hu, ht⟩
    obtain ⟨hmoved, halt, hu⟩ := (hfirst hs).mp hu
    obtain ⟨hmoved', halt', ht⟩ := (hsecond hu).mp ht
    exact ⟨Option.bind_eq_some_iff.mpr ⟨_, hmoved, hmoved'⟩, halt'.trans halt, ht⟩
  · rintro ⟨hmove, halt, ht⟩
    obtain ⟨moved, hmoved, hmoved'⟩ := Option.bind_eq_some_iff.mp hmove
    obtain ⟨main', alt'⟩ := t
    cases halt
    have hu := hbetween hmoved hmoved' hs ht
    exact ⟨⟨moved, s.alt⟩, (hfirst hs).mpr ⟨hmoved, rfl, hu⟩, (hsecond hu).mpr ⟨hmoved', rfl, ht⟩⟩

theorem congr (h : Rearranges ctx codes move Before After)
    (hmove : ∀ main, move main = move' main) : Rearranges ctx codes move' Before After :=
  funext hmove ▸ h

theorem of_imp {Before' : Stack → Prop} (h : Rearranges ctx codes move Before After)
    (hbefore : ∀ s, Before' s → Before s) : Rearranges ctx codes move Before' After :=
  fun _ _ hs => h (hbefore _ hs)

end Rearranges

/-! ## Copies and moves of single elements -/

/-- Copies the element at a depth. -/
def pick : UInt8 := 0x79

/-- Moves the element at a depth. -/
def roll : UInt8 := 0x7a

/-- The opcode that pushes a number up to 16. -/
def constant : ℕ → UInt8
  | 0 => 0x00
  | value + 1 => number (value + 1)

/-- Copies the element at a known depth. -/
def pickAt (depth : ℕ) : List UInt8 := [constant depth, pick]

/-- Moves the element at a known depth. -/
def rollAt (depth : ℕ) : List UInt8 := [constant depth, roll]

theorem executeUnlimited_constant {value : ℕ} (h : value ≤ 16) :
    executeUnlimited ctx (constant value) s = .ok (s.put (ScriptNumber.encode value)) := by
  have hoperation : operation? (constant value) = some (.constant value) := by
    cases value with
    | zero => rfl
    | succ value => exact operation?_number (Nat.succ_pos _) h
  unfold executeUnlimited
  rw [hoperation]
  rfl

theorem popDepth_put {depth : ℕ} (h : depth ≤ 16) (s : Stack) :
    Operation.popDepth (s.put (ScriptNumber.encode depth)) =
      if s.main.length ≤ depth then .error .tooFewItems else .ok (depth, s) := by
  unfold Operation.popDepth Stack.put
  rw [Stack.popNumber_cons (ScriptNumber.decode_encode_of_le (by omega)), ok_bind]
  exact if_congr (or_iff_right (by omega)) rfl rfl

theorem executeUnlimited_pick_iff {depth : ℕ} (h : depth ≤ 16) :
    executeUnlimited ctx pick (s.put (ScriptNumber.encode depth)) = .ok t ↔
      copyUp depth s.main = some t.main ∧ t.alt = s.alt := by
  change (Operation.popDepth _ >>= fun r => r.2.top r.1 >>= fun e => pure (r.2.put e)) = _ ↔ _
  obtain ⟨main, alt⟩ := t
  rw [popDepth_put h, copyUp]
  split_ifs with hdepth
  · simp [List.getElem?_eq_none hdepth]
  · have hlt := Nat.lt_of_not_le hdepth
    simp [Stack.top, Stack.put, List.getElem?_eq_getElem hlt, eq_comm]

theorem executeUnlimited_roll_iff {depth : ℕ} (h : depth ≤ 16) :
    executeUnlimited ctx roll (s.put (ScriptNumber.encode depth)) = .ok t ↔
      moveUp depth s.main = some t.main ∧ t.alt = s.alt := by
  change (Operation.popDepth _ >>= fun r => r.2.remove r.1 >>= fun r => pure (r.2.put r.1)) = _ ↔ _
  obtain ⟨main, alt⟩ := t
  rw [popDepth_put h, moveUp]
  split_ifs with hdepth
  · simp [List.getElem?_eq_none hdepth]
  · have hlt := Nat.lt_of_not_le hdepth
    simp [Stack.remove, Stack.top, Stack.put, List.getElem?_eq_getElem hlt, eq_comm]

/-- An opcode that looks up the element at a depth, behind the opcode that pushes the depth. -/
theorem rearranges_at {code : UInt8} {move : List Bytes → Option (List Bytes)} {depth : ℕ}
    {Before : Stack → Prop} (hdepth : depth ≤ 16)
    (hcode : ∀ s t : Stack, executeUnlimited ctx code (s.put (ScriptNumber.encode depth)) = .ok t ↔
      move s.main = some t.main ∧ t.alt = s.alt)
    (hbefore : ∀ s, Before s → s.WithinLimits)
    (hroom : ∀ {main moved alt}, move main = some moved → Before ⟨main, alt⟩ →
      WithinLimits ⟨moved, alt⟩ → HasRoom ⟨main, alt⟩) :
    Rearranges ctx [constant depth, code] move Before WithinLimits := by
  intro s t hs
  have hlimits := hbefore s hs
  rw [executeAll_cons, bind_eq_ok_iff]
  simp only [executeAll_singleton, execute_eq_ok_iff hlimits, executeUnlimited_constant hdepth,
    Except.ok.injEq]
  constructor
  · rintro ⟨u, ⟨rfl, hu⟩, ht⟩
    obtain ⟨ht, hafter⟩ := (execute_eq_ok_iff hu).mp ht
    obtain ⟨hmove, halt⟩ := (hcode s t).mp ht
    exact ⟨hmove, halt, hafter⟩
  · rintro ⟨hmove, halt, hafter⟩
    have hshort : (ScriptNumber.encode depth).length ≤ Stack.elementLimit :=
      (ScriptNumber.length_encode_le_iff.mpr (by omega : _ < 256 ^ 1)).trans (by decide)
    have hu := (hroom hmove hs (halt ▸ hafter)).put hshort
    exact ⟨_, ⟨rfl, hu⟩, (execute_eq_ok_iff hu).mpr ⟨(hcode s t).mpr ⟨hmove, halt⟩, hafter⟩⟩

theorem rearranges_pickAt (depth : ℕ) (h : depth ≤ 16) :
    Rearranges ctx (pickAt depth) (copyUp depth) WithinLimits WithinLimits := by
  refine rearranges_at h (fun s t => executeUnlimited_pick_iff h) (fun s hs => hs) ?_
  intro main moved alt hmoved _ hafter
  exact hasRoom_of_copyUp hmoved hafter

theorem rearranges_rollAt (depth : ℕ) (h : depth ≤ 16) :
    Rearranges ctx (rollAt depth) (moveUp depth) HasRoom WithinLimits := by
  refine rearranges_at h (fun s t => executeUnlimited_roll_iff h) (fun s hs => hs.toWithinLimits) ?_
  intro main moved alt _ hroom _
  exact hroom

/-! ## Expansions -/

/-- The opcode of a rearrangement. -/
def shuffle : Shuffle → UInt8
  | .drop => 0x75
  | .drop2 => 0x6d
  | .dup => 0x76
  | .dup2 => 0x6e
  | .dup3 => 0x6f
  | .nip => 0x77
  | .copyBelow => 0x78
  | .copyBelow2 => 0x70
  | .rot => 0x7b
  | .rot2 => 0x71
  | .swap => 0x7c
  | .swap2 => 0x72
  | .tuck => 0x7d

/-- Moves the top to the alternative stack. -/
def toAltStack : UInt8 := 0x6b

/-- Moves the top of the alternative stack back. -/
def fromAltStack : UInt8 := 0x6c

/-- Opcodes that do the same as a rearrangement. Taking the top off has none but itself. -/
def expansion : Shuffle → List UInt8
  | .drop => [shuffle .drop]
  | .drop2 => [shuffle .drop, shuffle .drop]
  | .dup => pickAt 0
  | .dup2 => pickAt 1 ++ pickAt 1
  | .dup3 => pickAt 2 ++ pickAt 2 ++ pickAt 2
  | .nip => [shuffle .swap, shuffle .drop]
  | .copyBelow => pickAt 1
  | .copyBelow2 => pickAt 3 ++ pickAt 3
  | .rot => rollAt 2
  | .rot2 => rollAt 5 ++ rollAt 5
  | .swap => rollAt 1
  | .swap2 => rollAt 3 ++ rollAt 3
  | .tuck => [shuffle .swap, shuffle .copyBelow]

theorem operation?_shuffle (kind : Shuffle) : operation? (shuffle kind) = some (.shuffle kind) := by
  cases kind <;> rfl

theorem rearranges_shuffle (kind : Shuffle) :
    Rearranges ctx [shuffle kind] kind.apply WithinLimits WithinLimits := by
  intro s t hs
  rw [executeAll_singleton, execute_eq_ok_iff hs, executeUnlimited, operation?_shuffle]
  obtain ⟨main, alt⟩ := t
  cases hmoved : kind.apply s.main with
  | none => simp [Operation.applyUnlimited, hmoved]
  | some moved => simp [Operation.applyUnlimited, hmoved, eq_comm, and_assoc]

/-- Copies of one element after the other never need more room than there is in the end. -/
theorem Rearranges.append_pickAt {codes : List UInt8} {move : List Bytes → Option (List Bytes)}
    {Before : Stack → Prop} (h : Rearranges ctx codes move Before WithinLimits) (depth : ℕ)
    (hdepth : depth ≤ 16) :
    Rearranges ctx (codes ++ pickAt depth) (fun main => move main >>= copyUp depth) Before
      WithinLimits :=
  h.append (rearranges_pickAt depth hdepth) fun _ hcopied _ hafter =>
    (hasRoom_of_copyUp hcopied hafter).toWithinLimits

/-- A moved element leaves as much room as there was. -/
theorem rearranges_rollAt_twice (depth : ℕ) (h : depth ≤ 16) :
    Rearranges ctx (rollAt depth ++ rollAt depth) (fun main => moveUp depth main >>= moveUp depth)
      HasRoom WithinLimits := by
  have hfirst : Rearranges ctx (rollAt depth) (moveUp depth) HasRoom HasRoom := by
    intro s t hs
    rw [rearranges_rollAt depth h hs]
    refine and_congr_right fun hmoved => and_congr_right fun halt => ?_
    obtain ⟨main, alt⟩ := t
    cases halt
    exact ⟨fun _ => hs.of_perm (perm_of_moveUp hmoved), fun ht => ht.toWithinLimits⟩
  refine hfirst.append (rearranges_rollAt depth h) ?_
  intro main moved moved' alt hmoved _ hroom _
  exact hroom.of_perm (perm_of_moveUp hmoved)

/-- Two rearrangements, of which the first one leaves no more elements than there were. -/
theorem rearranges_pair {first second : Shuffle}
    (hlength : ∀ {main moved}, first.apply main = some moved → moved.length ≤ main.length) :
    Rearranges ctx [shuffle first, shuffle second] (fun main => first.apply main >>= second.apply)
      WithinLimits WithinLimits := by
  refine (rearranges_shuffle first).append (rearranges_shuffle second) ?_
  intro main moved moved' alt hmoved _ hs _
  refine ⟨?_, fun element helement => hs.main element (Shuffle.subset_of_apply hmoved helement),
    hs.alt⟩
  exact (Nat.add_le_add_right (hlength hmoved) _).trans hs.height

theorem length_of_apply_drop {main moved : List Bytes} (h : Shuffle.drop.apply main = some moved) :
    moved.length ≤ main.length := by
  rcases main with _ | ⟨a, rest⟩
  · cases h
  · cases h
    exact Nat.le_succ _

theorem length_of_apply_swap {main moved : List Bytes} (h : Shuffle.swap.apply main = some moved) :
    moved.length ≤ main.length := by
  rcases main with _ | ⟨a, _ | ⟨b, rest⟩⟩
  · cases h
  · cases h
  · cases h
    exact le_rfl

/-- An expansion does the same as its opcode, where there is room for the depth of an element. -/
theorem rearranges_expansion (kind : Shuffle) :
    Rearranges ctx (expansion kind) kind.apply HasRoom WithinLimits := by
  have hwithin : ∀ s : Stack, s.HasRoom → s.WithinLimits := fun s hs => hs.toWithinLimits
  cases kind with
  | drop => exact (rearranges_shuffle .drop).of_imp hwithin
  | drop2 =>
    refine ((rearranges_pair length_of_apply_drop).of_imp hwithin).congr ?_
    rintro (_ | ⟨a, _ | ⟨b, rest⟩⟩) <;> rfl
  | dup =>
    refine ((rearranges_pickAt 0 (by decide)).of_imp hwithin).congr ?_
    rintro (_ | ⟨a, rest⟩) <;> rfl
  | dup2 =>
    have hcopies : Rearranges ctx (pickAt 1 ++ pickAt 1) _ _ _ :=
      (rearranges_pickAt 1 (by decide)).append_pickAt 1 (by decide)
    refine (hcopies.of_imp hwithin).congr ?_
    rintro (_ | ⟨a, _ | ⟨b, rest⟩⟩) <;> rfl
  | dup3 =>
    have hcopies : Rearranges ctx (pickAt 2 ++ pickAt 2 ++ pickAt 2) _ _ _ :=
      ((rearranges_pickAt 2 (by decide)).append_pickAt 2 (by decide)).append_pickAt 2 (by decide)
    refine (hcopies.of_imp hwithin).congr ?_
    rintro (_ | ⟨a, _ | ⟨b, _ | ⟨c, rest⟩⟩⟩) <;> rfl
  | nip =>
    refine ((rearranges_pair length_of_apply_swap).of_imp hwithin).congr ?_
    rintro (_ | ⟨a, _ | ⟨b, rest⟩⟩) <;> rfl
  | copyBelow =>
    refine ((rearranges_pickAt 1 (by decide)).of_imp hwithin).congr ?_
    rintro (_ | ⟨a, _ | ⟨b, rest⟩⟩) <;> rfl
  | copyBelow2 =>
    have hcopies : Rearranges ctx (pickAt 3 ++ pickAt 3) _ _ _ :=
      (rearranges_pickAt 3 (by decide)).append_pickAt 3 (by decide)
    refine (hcopies.of_imp hwithin).congr ?_
    rintro (_ | ⟨a, _ | ⟨b, _ | ⟨c, _ | ⟨d, rest⟩⟩⟩⟩) <;> rfl
  | rot =>
    refine (rearranges_rollAt 2 (by decide)).congr ?_
    rintro (_ | ⟨a, _ | ⟨b, _ | ⟨c, rest⟩⟩⟩) <;> rfl
  | rot2 =>
    refine (rearranges_rollAt_twice 5 (by decide)).congr ?_
    rintro (_ | ⟨a, _ | ⟨b, _ | ⟨c, _ | ⟨d, _ | ⟨e, _ | ⟨f, rest⟩⟩⟩⟩⟩⟩) <;> rfl
  | swap =>
    refine (rearranges_rollAt 1 (by decide)).congr ?_
    rintro (_ | ⟨a, _ | ⟨b, rest⟩⟩) <;> rfl
  | swap2 =>
    refine (rearranges_rollAt_twice 3 (by decide)).congr ?_
    rintro (_ | ⟨a, _ | ⟨b, _ | ⟨c, _ | ⟨d, rest⟩⟩⟩⟩) <;> rfl
  | tuck =>
    refine ((rearranges_pair length_of_apply_swap).of_imp hwithin).congr ?_
    rintro (_ | ⟨a, _ | ⟨b, rest⟩⟩) <;> rfl

/-- An element comes back from the alternative stack as it went there. -/
theorem executeAll_toAlt_fromAlt (h : s.WithinLimits) (hmain : s.main ≠ []) :
    executeAll ctx [toAltStack, fromAltStack] s = .ok s := by
  obtain ⟨main, alt⟩ := s
  obtain ⟨top, rest, rfl⟩ := List.exists_cons_of_ne_nil hmain
  have haway : execute ctx toAltStack ⟨top :: rest, alt⟩ = .ok ⟨rest, top :: alt⟩ :=
    h.checkSize_eq (by simp only [Stack.size, List.length_cons]; omega)
  have hback : execute ctx fromAltStack ⟨rest, top :: alt⟩ = .ok ⟨top :: rest, alt⟩ :=
    (Stack.push_of_length_le ⟨rest, alt⟩ (h.main top List.mem_cons_self)).trans
      (h.checkSize_eq le_rfl)
  rw [executeAll_cons, haway, ok_bind, executeAll_singleton, hback]

theorem execute_shuffle (h : s.WithinLimits) (kind : Shuffle) :
    execute ctx (shuffle kind) s = kind.steps s := by
  rw [execute_of_operation? (operation?_shuffle kind)]
  exact Operation.apply_shuffle_eq_steps h

/-- Within the limits, each opcode that rearranges the topmost elements takes them off, copies and
pushes them one primitive after the other, and fails as the first primitive that fails. On stacks of
less than 1000 elements it does the same as its expansion: both fail, or both leave the same stacks.
Moving an element to the alternative stack and back leaves the stacks as they were. -/
theorem execute_expansion (ctx : Context) {s : Stack} (h : s.WithinLimits) :
    (∀ kind, execute ctx (shuffle kind) s = kind.steps s) ∧
    (s.HasRoom → ∀ kind t, execute ctx (shuffle kind) s = .ok t ↔
      executeAll ctx (expansion kind) s = .ok t) ∧
    (s.main ≠ [] → executeAll ctx [toAltStack, fromAltStack] s = .ok s) := by
  refine ⟨execute_shuffle h, ?_, executeAll_toAlt_fromAlt h⟩
  intro hroom kind t
  rw [← executeAll_singleton, rearranges_shuffle kind h, rearranges_expansion kind hroom]

/-- Six elements and one on the alternative stack, for the deepest of the rearrangements. -/
theorem execute_expansion_six :
    Stack.HasRoom ⟨[[1], [2], [3], [4], [5], [6]], [[7]]⟩ ∧
      execute (.plain 0) 0x71 ⟨[[1], [2], [3], [4], [5], [6]], [[7]]⟩ =
        Shuffle.steps .rot2 ⟨[[1], [2], [3], [4], [5], [6]], [[7]]⟩ ∧
      executeAll (.plain 0) [0x55, 0x7a, 0x55, 0x7a] ⟨[[1], [2], [3], [4], [5], [6]], [[7]]⟩ =
        .ok ⟨[[5], [6], [1], [2], [3], [4]], [[7]]⟩ ∧
      executeAll (.plain 0) [0x6b, 0x6c] ⟨[[1], [2], [3], [4], [5], [6]], [[7]]⟩ =
        .ok ⟨[[1], [2], [3], [4], [5], [6]], [[7]]⟩ := by
  have hroom : Stack.HasRoom ⟨[[1], [2], [3], [4], [5], [6]], [[7]]⟩ :=
    ⟨⟨by decide, by decide, by decide⟩, by decide⟩
  obtain ⟨hsteps, hexpansion, halt⟩ := execute_expansion (.plain 0) hroom.toWithinLimits
  exact ⟨hroom, hsteps .rot2, (hexpansion hroom .rot2 _).mp rfl, halt (List.cons_ne_nil _ _)⟩

end Opcode

end CoinSpend
