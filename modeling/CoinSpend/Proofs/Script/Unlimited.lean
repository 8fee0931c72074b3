import CoinSpend.Proofs.Script.Operation
import Mathlib

/-!
# Operations without limits

The limits of the stacks are looked at in a few places only: a push looks at both of them, a move to
the alternative stack and a rearrangement at the height alone, and whatever takes elements away at
none. On stacks that keep to the limits this is enough. Each operation comes to what it would come
to without limits, and fails exactly if that breaks one of them.

A check whose result is required has that result on the stack only in between. It cannot break a
limit there, since it takes an element for the one that it leaves.

Results:
* `Stack.WithinLimits`, `Stack.enforceLimits`: the limits, and how breaking them fails.
* `Operation.apply_eq_enforceLimits`, `Opcode.execute_eq_enforceLimits`: what an operation does.
-/

namespace CoinSpend

namespace Stack

variable {s t : Stack} {element : Bytes}

/-! ## The limits -/

/-- The stacks are not too high, and no element is too long. -/
structure WithinLimits (s : Stack) : Prop where
  height : s.size ≤ sizeLimit
  main : ∀ element ∈ s.main, element.length ≤ elementLimit
  alt : ∀ element ∈ s.alt, element.length ≤ elementLimit

/-- There is room for one more element. -/
structure HasRoom (s : Stack) : Prop extends WithinLimits s where
  room : s.size < sizeLimit

/-- The stacks, if they keep to the limits. The length of the elements counts first. -/
def enforceLimits (s : Stack) : Except ScriptError Stack :=
  if ∀ element ∈ s.main ++ s.alt, element.length ≤ elementLimit then s.checkSize
  else .error .pushSize

theorem withinLimits_empty : WithinLimits empty :=
  ⟨by decide, by simp [empty], by simp [empty]⟩

theorem enforceLimits_eq_ok_iff : s.enforceLimits = .ok t ↔ s.WithinLimits ∧ t = s := by
  unfold enforceLimits checkSize
  constructor
  · intro h
    split_ifs at h with hlength hsize
    rw [List.forall_mem_append] at hlength
    exact ⟨⟨hsize, hlength.1, hlength.2⟩, (Except.ok.inj h).symm⟩
  · rintro ⟨⟨hsize, hmain, halt⟩, rfl⟩
    rw [if_pos (List.forall_mem_append.mpr ⟨hmain, halt⟩), if_pos hsize]

theorem WithinLimits.enforceLimits (h : s.WithinLimits) : s.enforceLimits = .ok s :=
  enforceLimits_eq_ok_iff.mpr ⟨h, rfl⟩

/-- Breaking a limit is an error of its own. -/
theorem exists_enforceLimits_error (h : ¬ s.WithinLimits) :
    ∃ e, s.enforceLimits = .error e ∧ (e = .pushSize ∨ e = .stackSize) := by
  unfold Stack.enforceLimits checkSize
  split_ifs with hlength hsize
  · rw [List.forall_mem_append] at hlength
    exact absurd ⟨hsize, hlength.1, hlength.2⟩ h
  · exact ⟨_, rfl, .inr rfl⟩
  · exact ⟨_, rfl, .inl rfl⟩

/-! ## Elements put on the stacks -/

/-- Puts an element on the main stack, whatever the limits. -/
def put (s : Stack) (element : Bytes) : Stack := { s with main := element :: s.main }

/-- Puts an element on the alternative stack, whatever the limits. -/
def putAlt (s : Stack) (element : Bytes) : Stack := { s with alt := element :: s.alt }

theorem WithinLimits.push_eq (h : s.WithinLimits) (element : Bytes) :
    s.push element = (s.put element).enforceLimits := by
  have hshort : (∀ e ∈ (s.put element).main ++ (s.put element).alt, e.length ≤ elementLimit) ↔
      element.length ≤ elementLimit := by
    rw [List.forall_mem_append]
    unfold put
    rw [List.forall_mem_cons]
    exact ⟨fun hall => hall.1.1, fun helement => ⟨⟨helement, h.main⟩, h.alt⟩⟩
  unfold push Stack.enforceLimits
  rw [if_congr hshort rfl rfl]
  rfl

theorem WithinLimits.pushAlt_eq (h : s.WithinLimits) (helement : element.length ≤ elementLimit) :
    s.pushAlt element = (s.putAlt element).enforceLimits := by
  have hshort : ∀ e ∈ (s.putAlt element).main ++ (s.putAlt element).alt,
      e.length ≤ elementLimit := by
    rw [List.forall_mem_append]
    exact ⟨h.main, List.forall_mem_cons.mpr ⟨helement, h.alt⟩⟩
  unfold Stack.enforceLimits
  rw [if_pos hshort]
  rfl

theorem HasRoom.put (h : s.HasRoom) (helement : element.length ≤ elementLimit) :
    (s.put element).WithinLimits := by
  refine ⟨?_, List.forall_mem_cons.mpr ⟨helement, h.main⟩, h.alt⟩
  have hroom := h.room
  simp only [Stack.put, size, List.length_cons] at hroom ⊢
  omega

/-! ## Elements taken off -/

/-- What is taken away from breaks no limit. -/
theorem WithinLimits.of_sublist (h : s.WithinLimits) (hmain : t.main.Sublist s.main)
    (halt : t.alt.Sublist s.alt) : t.WithinLimits := by
  refine ⟨?_, fun e he => h.main e (hmain.subset he), fun e he => h.alt e (halt.subset he)⟩
  have hsize := h.height
  have hmainLength := hmain.length_le
  have haltLength := halt.length_le
  simp only [size] at hsize ⊢
  omega

/-- Where an element is gone, there is room for another one. -/
theorem WithinLimits.hasRoom (h : s.WithinLimits) (hmain : t.main.Sublist s.main)
    (halt : t.alt.Sublist s.alt) (hsize : t.size < s.size) : t.HasRoom :=
  ⟨h.of_sublist hmain halt, hsize.trans_le h.height⟩

theorem WithinLimits.of_pop (h : s.WithinLimits) (hpop : s.pop = .ok (element, t)) :
    element.length ≤ elementLimit ∧ t.HasRoom := by
  obtain ⟨hmain, halt⟩ := pop_eq_ok_iff.mp hpop
  refine ⟨h.main element (by rw [hmain]; exact List.mem_cons_self), h.hasRoom ?_ ?_ ?_⟩
  · rw [hmain]
    exact List.sublist_cons_self _ _
  · rw [halt]
  · rw [size, size, hmain, halt, List.length_cons]
    omega

theorem WithinLimits.of_popAlt (h : s.WithinLimits) (hpop : s.popAlt = .ok (element, t)) :
    element.length ≤ elementLimit ∧ t.HasRoom := by
  unfold popAlt at hpop
  split at hpop
  · cases hpop
  · next halt =>
    cases hpop
    refine ⟨h.alt element (by rw [halt]; exact List.mem_cons_self), h.hasRoom ?_ ?_ ?_⟩
    · exact List.Sublist.refl _
    · rw [halt]
      exact List.sublist_cons_self _ _
    · simp only [size, halt, List.length_cons]
      omega

theorem WithinLimits.of_popNumber {value : ℤ} (h : s.WithinLimits)
    (hpop : s.popNumber = .ok (value, t)) : t.HasRoom := by
  obtain ⟨⟨top, t'⟩, htop, hpop⟩ := bind_eq_ok_iff.mp hpop
  obtain ⟨value', -, hpop⟩ := bind_eq_ok_iff.mp hpop
  cases hpop
  exact (h.of_pop htop).2

theorem WithinLimits.of_popMany {count : ℕ} {elements : List Bytes} (h : s.WithinLimits)
    (hpop : s.popMany count = .ok (elements, t)) : t.WithinLimits := by
  unfold popMany at hpop
  split at hpop
  · cases hpop
  · cases hpop
    exact h.of_sublist (List.drop_sublist _ _) (List.Sublist.refl _)

theorem WithinLimits.of_remove {depth : ℕ} (h : s.WithinLimits)
    (hremove : s.remove depth = .ok (element, t)) : t.WithinLimits := by
  obtain ⟨element', -, hremove⟩ := bind_eq_ok_iff.mp hremove
  cases hremove
  exact h.of_sublist (List.eraseIdx_sublist _ _) (List.Sublist.refl _)

theorem WithinLimits.of_verifyTop {otherwise : ScriptError} (h : s.WithinLimits)
    (hverify : s.verifyTop otherwise = .ok t) : t.WithinLimits := by
  obtain ⟨top, hmain, halt, -⟩ := verifyTop_eq_ok_iff.mp hverify
  refine h.of_sublist ?_ ?_
  · rw [hmain]
    exact List.sublist_cons_self _ _
  · rw [halt]

end Stack

/-! ## Operations -/

/-- The elements after a rearrangement are elements before it. -/
theorem Shuffle.subset_of_apply {kind : Shuffle} {main moved : List Bytes}
    (h : kind.apply main = some moved) : moved ⊆ main := by
  unfold apply at h
  split at h <;> simp only [Option.some.injEq, reduceCtorEq] at h <;> subst h <;> grind

namespace Operation

open Stack

variable {ctx : Context} {s t : Stack}

theorem hasRoom_of_sigOperands {operands : Bytes × Bytes} (h : s.WithinLimits)
    (hoperands : sigOperands s = .ok (operands, t)) : t.HasRoom := by
  obtain ⟨⟨key, u⟩, hkey, hoperands⟩ := bind_eq_ok_iff.mp hoperands
  obtain ⟨⟨signature, u'⟩, hsignature, hoperands⟩ := bind_eq_ok_iff.mp hoperands
  cases hoperands
  exact ((h.of_pop hkey).2.of_pop hsignature).2

theorem hasRoom_of_multisigOperands {operands : List Bytes × List Bytes} (h : s.WithinLimits)
    (hoperands : multisigOperands s = .ok (operands, t)) : t.HasRoom := by
  obtain ⟨⟨keyCount, u⟩, hkeyCount, hoperands⟩ := bind_eq_ok_iff.mp hoperands
  have hu := (h.of_popNumber hkeyCount).toWithinLimits
  simp only at hoperands
  split_ifs at hoperands
  obtain ⟨⟨keys, v⟩, hkeys, hoperands⟩ := bind_eq_ok_iff.mp hoperands
  obtain ⟨⟨sigCount, w⟩, hsigCount, hoperands⟩ := bind_eq_ok_iff.mp hoperands
  have hw := ((hu.of_popMany hkeys).of_popNumber hsigCount).toWithinLimits
  simp only at hoperands
  split_ifs at hoperands
  obtain ⟨⟨signatures, x⟩, hsignatures, hoperands⟩ := bind_eq_ok_iff.mp hoperands
  obtain ⟨⟨further, y⟩, hfurther, hoperands⟩ := bind_eq_ok_iff.mp hoperands
  cases hoperands
  exact ((hw.of_popMany hsignatures).of_pop hfurther).2

theorem hasRoom_of_popDepth {place : ℕ} (h : s.WithinLimits)
    (hplace : popDepth s = .ok (place, t)) : t.HasRoom := by
  obtain ⟨⟨number, u⟩, hnumber, hplace⟩ := bind_eq_ok_iff.mp hplace
  simp only at hplace
  split_ifs at hplace
  cases hplace
  exact h.of_popNumber hnumber

theorem eq_of_checkLocktimeOf (h : checkLocktimeOf ctx s = .ok t) : t = s := by
  obtain ⟨top, -, h⟩ := bind_eq_ok_iff.mp h
  obtain ⟨required, -, h⟩ := bind_eq_ok_iff.mp h
  simp only at h
  split_ifs at h
  exact (Except.ok.inj h).symm

theorem eq_of_checkSequenceOf (h : checkSequenceOf ctx s = .ok t) : t = s := by
  obtain ⟨top, -, h⟩ := bind_eq_ok_iff.mp h
  obtain ⟨required, -, h⟩ := bind_eq_ok_iff.mp h
  simp only at h
  split_ifs at h <;> exact (Except.ok.inj h).symm

/-- The stacks after an operation, if there were no limits. -/
def applyUnlimited (ctx : Context) : Operation → Stack → Except ScriptError Stack
  | constant value, s => .ok (s.put (ScriptNumber.encode value))
  | nop, s => .ok s
  | fail, _ => .error .returned
  | toAlt, s => do
    let (top, s) ← s.pop
    return s.putAlt top
  | fromAlt, s => do
    let (top, s) ← s.popAlt
    return s.put top
  | shuffle kind, s =>
    match kind.apply s.main with
    | none => .error .tooFewItems
    | some main => .ok { s with main := main }
  | dupIfTrue, s => do
    let top ← s.top 0
    return if ScriptNumber.isTrue top then s.put top else s
  | depth, s => .ok (s.put (ScriptNumber.encode s.main.length))
  | pick, s => do
    let (place, s) ← popDepth s
    return s.put (← s.top place)
  | roll, s => do
    let (place, s) ← popDepth s
    let (element, s) ← s.remove place
    return s.put element
  | size, s => do return s.put (ScriptNumber.encode (← s.top 0).length)
  | equal, s => do
    let (b, s) ← s.pop
    let (a, s) ← s.pop
    return s.put (ScriptNumber.ofBool (a = b))
  | unary kind, s => do
    let (a, s) ← s.popNumber
    return s.put (ScriptNumber.encode (kind.apply a))
  | binary kind, s => do
    let (b, s) ← s.popNumber
    let (a, s) ← s.popNumber
    return s.put (ScriptNumber.encode (kind.apply a b))
  | within, s => do
    let (upper, s) ← s.popNumber
    let (lower, s) ← s.popNumber
    let (x, s) ← s.popNumber
    return s.put (ScriptNumber.ofBool (lower ≤ x ∧ x < upper))
  | digest kind, s => do
    let (top, s) ← s.pop
    return s.put (kind.apply top)
  | checkSig, s => do
    let (operands, s) ← sigOperands s
    let valid := match readSig? operands with
      | none => false
      | some (key, signature) => signature.verifies ctx.sigHash key
    return s.put (ScriptNumber.ofBool valid)
  | checkMultisig, s => do
    let (operands, s) ← multisigOperands s
    let valid := match readMultisig? operands with
      | none => false
      | some (keys, signatures) => matchSignatures ctx.sigHash signatures keys
    return s.put (ScriptNumber.ofBool valid)
  | checkLocktime, s => checkLocktimeOf ctx s
  | checkSequence, s => checkSequenceOf ctx s
  | verified operation otherwise, s => do
    let s ← operation.applyUnlimited ctx s
    s.verifyTop otherwise

/-- The operations that may have their result required. -/
def isCheck : Operation → Bool
  | nop | equal | binary .equal | checkSig | checkMultisig => true
  | _ => false

/-- Whether a result is required only of a check. -/
def requiresCheck : Operation → Bool
  | verified inner _ => inner.isCheck
  | _ => true

theorem requiresCheck_of_isCheck {operation : Operation} (h : operation.isCheck = true) :
    operation.requiresCheck = true := by
  cases operation with
  | verified inner otherwise => cases h
  | _ => rfl

/-- A check leaves at most one short element for those that it takes. -/
theorem withinLimits_of_isCheck {operation : Operation} (hcheck : operation.isCheck = true)
    (h : s.WithinLimits) (happly : operation.applyUnlimited ctx s = .ok t) : t.WithinLimits := by
  have hbool : ∀ b, (ScriptNumber.ofBool b).length ≤ elementLimit := fun b =>
    (ScriptNumber.length_ofBool_le b).trans (by decide)
  unfold isCheck at hcheck
  split at hcheck
  · cases happly
    exact h
  · obtain ⟨⟨b, u⟩, hb, happly⟩ := bind_eq_ok_iff.mp happly
    obtain ⟨⟨a, v⟩, ha, happly⟩ := bind_eq_ok_iff.mp happly
    cases happly
    exact ((h.of_pop hb).2.of_pop ha).2.put (hbool _)
  · obtain ⟨⟨b, u⟩, hb, happly⟩ := bind_eq_ok_iff.mp happly
    obtain ⟨⟨a, v⟩, ha, happly⟩ := bind_eq_ok_iff.mp happly
    cases happly
    refine ((h.of_popNumber hb).of_popNumber ha).put ?_
    exact (congrArg List.length (by simp [BinaryOperation.apply, ScriptNumber.ofBool])).trans_le
      (hbool (decide (a = b)))
  · obtain ⟨⟨operands, u⟩, hoperands, happly⟩ := bind_eq_ok_iff.mp happly
    cases happly
    exact (hasRoom_of_sigOperands h hoperands).put (hbool _)
  · obtain ⟨⟨operands, u⟩, hoperands, happly⟩ := bind_eq_ok_iff.mp happly
    cases happly
    exact (hasRoom_of_multisigOperands h hoperands).put (hbool _)
  · cases hcheck

/-- Limits that the result keeps to make no difference. -/
theorem bind_enforceLimits_eq {x : Except ScriptError Stack}
    (h : ∀ t, x = .ok t → t.WithinLimits) : x >>= enforceLimits = x := by
  cases x with
  | error e => rfl
  | ok t => exact (h t rfl).enforceLimits

/-- A computation that looks at a limit at its end only. -/
theorem bind_enforceLimits {α : Type} {x : Except ScriptError α}
    {f g : α → Except ScriptError Stack}
    (h : ∀ a, x = .ok a → f a = g a >>= enforceLimits) :
    x >>= f = (x >>= g) >>= enforceLimits := by
  cases x with
  | error e => rfl
  | ok a => exact h a rfl

/-- On stacks within the limits, an operation does what it would do without limits, if the result
keeps to them. -/
theorem apply_eq_enforceLimits {operation : Operation} (hrequires : operation.requiresCheck = true)
    (h : s.WithinLimits) :
    operation.apply ctx s = operation.applyUnlimited ctx s >>= enforceLimits := by
  induction operation with
  | constant value => exact h.push_eq _
  | nop => exact h.enforceLimits.symm
  | fail => rfl
  | toAlt =>
    refine bind_enforceLimits ?_
    rintro ⟨top, t⟩ hpop
    obtain ⟨htop, ht⟩ := h.of_pop hpop
    exact ht.pushAlt_eq htop
  | fromAlt =>
    refine bind_enforceLimits ?_
    rintro ⟨top, t⟩ hpop
    exact (h.of_popAlt hpop).2.push_eq top
  | shuffle kind =>
    rw [apply, applyUnlimited]
    cases hmoved : kind.apply s.main with
    | none => rfl
    | some moved =>
      have hshort : ∀ e ∈ moved ++ s.alt, e.length ≤ elementLimit := by
        rw [List.forall_mem_append]
        exact ⟨fun e he => h.main e (Shuffle.subset_of_apply hmoved he), h.alt⟩
      exact (if_pos hshort).symm
  | dupIfTrue =>
    refine bind_enforceLimits ?_
    intro top _
    split
    · exact h.push_eq top
    · exact h.enforceLimits.symm
  | depth => exact h.push_eq _
  | pick =>
    refine bind_enforceLimits ?_
    rintro ⟨place, t⟩ hplace
    refine bind_enforceLimits ?_
    intro element _
    exact (hasRoom_of_popDepth h hplace).push_eq element
  | roll =>
    refine bind_enforceLimits ?_
    rintro ⟨place, t⟩ hplace
    refine bind_enforceLimits ?_
    rintro ⟨element, u⟩ hremove
    exact ((hasRoom_of_popDepth h hplace).of_remove hremove).push_eq element
  | size =>
    refine bind_enforceLimits ?_
    intro top _
    exact h.push_eq _
  | equal =>
    refine bind_enforceLimits ?_
    rintro ⟨b, t⟩ hb
    refine bind_enforceLimits ?_
    rintro ⟨a, u⟩ ha
    exact ((h.of_pop hb).2.of_pop ha).2.push_eq _
  | unary kind =>
    refine bind_enforceLimits ?_
    rintro ⟨a, t⟩ ha
    exact (h.of_popNumber ha).push_eq _
  | binary kind =>
    refine bind_enforceLimits ?_
    rintro ⟨b, t⟩ hb
    refine bind_enforceLimits ?_
    rintro ⟨a, u⟩ ha
    exact ((h.of_popNumber hb).of_popNumber ha).push_eq _
  | within =>
    refine bind_enforceLimits ?_
    rintro ⟨upper, t⟩ hupper
    refine bind_enforceLimits ?_
    rintro ⟨lower, u⟩ hlower
    refine bind_enforceLimits ?_
    rintro ⟨x, v⟩ hx
    exact (((h.of_popNumber hupper).of_popNumber hlower).of_popNumber hx).push_eq _
  | digest kind =>
    refine bind_enforceLimits ?_
    rintro ⟨top, t⟩ hpop
    exact (h.of_pop hpop).2.push_eq _
  | checkSig =>
    refine bind_enforceLimits ?_
    rintro ⟨operands, t⟩ hoperands
    exact (hasRoom_of_sigOperands h hoperands).push_eq _
  | checkMultisig =>
    refine bind_enforceLimits ?_
    rintro ⟨operands, t⟩ hoperands
    exact (hasRoom_of_multisigOperands h hoperands).push_eq _
  | checkLocktime =>
    refine (bind_enforceLimits_eq ?_).symm
    intro t ht
    rwa [eq_of_checkLocktimeOf ht]
  | checkSequence =>
    refine (bind_enforceLimits_eq ?_).symm
    intro t ht
    rwa [eq_of_checkSequenceOf ht]
  | verified inner otherwise ih =>
    have hinner := ih (requiresCheck_of_isCheck hrequires)
    rw [apply, applyUnlimited, hinner]
    cases happly : inner.applyUnlimited ctx s with
    | error e => rfl
    | ok t =>
      have ht := withinLimits_of_isCheck hrequires h happly
      rw [ok_bind, ok_bind, ht.enforceLimits, ok_bind]
      exact (bind_enforceLimits_eq fun u hu => ht.of_verifyTop hu).symm

end Operation

namespace Opcode

/-- The stacks after the operation of a byte, if there were no limits. -/
def executeUnlimited (ctx : Context) (code : UInt8) (s : Stack) : Except ScriptError Stack :=
  match operation? code with
  | none => .error (.badOpcode code)
  | some operation => operation.applyUnlimited ctx s

theorem requiresCheck_of_mem_table :
    ∀ entry ∈ table, entry.operation.all Operation.requiresCheck = true := by
  decide

theorem requiresCheck_of_operation? {code : UInt8} {operation : Operation}
    (h : operation? code = some operation) : operation.requiresCheck = true := by
  obtain ⟨entry, hentry, hoperation⟩ := Option.bind_eq_some_iff.mp h
  have hrequires := requiresCheck_of_mem_table entry (List.mem_of_find?_eq_some hentry)
  rwa [hoperation] at hrequires

/-- On stacks within the limits, an opcode does what it would do without limits, if the result keeps
to them. -/
theorem execute_eq_enforceLimits {ctx : Context} {s : Stack} (code : UInt8) (h : s.WithinLimits) :
    execute ctx code s = executeUnlimited ctx code s >>= Stack.enforceLimits := by
  unfold execute executeUnlimited
  cases hoperation : operation? code with
  | none => rfl
  | some operation =>
    exact Operation.apply_eq_enforceLimits (requiresCheck_of_operation? hoperation) h

theorem execute_eq_ok_iff {ctx : Context} {s t : Stack} {code : UInt8} (h : s.WithinLimits) :
    execute ctx code s = .ok t ↔ executeUnlimited ctx code s = .ok t ∧ t.WithinLimits := by
  rw [execute_eq_enforceLimits code h, bind_eq_ok_iff]
  constructor
  · rintro ⟨u, hu, ht⟩
    obtain ⟨hlimits, rfl⟩ := Stack.enforceLimits_eq_ok_iff.mp ht
    exact ⟨hu, hlimits⟩
  · rintro ⟨ht, hlimits⟩
    exact ⟨t, ht, hlimits.enforceLimits⟩

end Opcode

end CoinSpend
