import CoinSpend.Proofs.Script.Operation
import Mathlib

/-!
# Checks of several signatures

A check takes the public keys and the signatures in the order in which they were pushed, and tries
the keys one after the other, each for the first signature that is not matched yet. A signature may
match a key before that of its signer. This does no harm: with fewer keys used up, the signatures
behind it match all the same.

Results:
* `Operation.matchSignatures_iff`: the check finds a matching whenever there is one.
* `Operation.areSigned_iff`: what the check tells of the elements on the stack.
* `Operation.apply_checkMultisig`: the check on stacks that hold its operands.
* `Script.exec_multisig`: a script that asks for several signatures.
-/

namespace CoinSpend

/-! ## Matching signatures with keys -/

namespace Operation

section Matching

variable {sigHash : ℕ} {signature : Signature} {signatures : List Signature} {key : Point}
  {keys : List Point}

/-- A key is used up by the first signature or passed over. -/
theorem matchSignatures_cons_cons :
    matchSignatures sigHash (signature :: signatures) (key :: keys) =
      if signature.verifies sigHash key then matchSignatures sigHash signatures keys
      else matchSignatures sigHash (signature :: signatures) keys := by
  rw [matchSignatures, List.dropWhile_cons]
  cases h : signature.verifies sigHash key with
  | true => rfl
  | false => rfl

/-- The signatures match the keys exactly if some of the keys, in their order, verify them one by
one. -/
theorem matchSignatures_iff :
    matchSignatures sigHash signatures keys = true ↔ ∃ owners, owners.Sublist keys ∧
      List.Forall₂ (fun signature owner => signature.verifies sigHash owner = true)
        signatures owners := by
  induction keys generalizing signatures with
  | nil => cases signatures <;> simp [matchSignatures]
  | cons key keys ih =>
    cases signatures with
    | nil => simp [matchSignatures]
    | cons signature signatures =>
      rw [matchSignatures_cons_cons]
      constructor
      · intro h
        split at h
        · next hverifies =>
          obtain ⟨owners, hsub, hall⟩ := ih.mp h
          exact ⟨key :: owners, hsub.cons_cons key, .cons hverifies hall⟩
        · obtain ⟨owners, hsub, hall⟩ := ih.mp h
          exact ⟨owners, hsub.cons key, hall⟩
      · rintro ⟨owners, hsub, hall⟩
        obtain ⟨owner, others, howner, hothers, rfl⟩ := List.forall₂_cons_left_iff.mp hall
        split
        · -- the owners of the other signatures stand behind the key, whoever owns this one
          exact ih.mpr ⟨others, hsub.tail, hothers⟩
        · next hverifies =>
          rcases List.sublist_cons_iff.mp hsub with hskip | ⟨_, heq, -⟩
          · exact ih.mpr ⟨owner :: others, hskip, hall⟩
          · cases heq
            exact absurd howner hverifies

end Matching

/-! ## Operands -/

theorem publicKey?_eq_some_iff {element : Bytes} {key : Point} :
    publicKey? element = some key ↔ Point.ofSec element = .ok key := toOption_eq_some_iff

theorem signature?_eq_some_iff {element : Bytes} {signature : Signature} :
    signature? element = some signature ↔
      element ≠ [] ∧ Signature.ofDer element.dropLast = .ok signature := by
  unfold signature?
  rw [← toOption_eq_some_iff]
  split <;> simp [*]

theorem readMultisig?_eq_some_iff {secs sigs : List Bytes} {keys : List Point}
    {signatures : List Signature} :
    readMultisig? (secs, sigs) = some (keys, signatures) ↔
      List.Forall₂ (fun sec key => Point.ofSec sec = .ok key) secs keys ∧
        List.Forall₂ (fun sig signature => sig ≠ [] ∧
          Signature.ofDer sig.dropLast = .ok signature) sigs signatures := by
  simp only [← publicKey?_eq_some_iff, ← signature?_eq_some_iff, ← mapM_eq_some_iff]
  unfold readMultisig?
  cases secs.mapM publicKey? <;> cases sigs.mapM signature? <;> simp

/-- Whether stack elements are public keys and signatures that match, both lowest first. -/
def areSigned (sigHash : ℕ) (secs sigs : List Bytes) : Bool :=
  match readMultisig? (secs, sigs) with
  | none => false
  | some (keys, signatures) => matchSignatures sigHash signatures keys

theorem areSigned_iff {sigHash : ℕ} {secs sigs : List Bytes} :
    areSigned sigHash secs sigs = true ↔ ∃ keys signatures owners,
      List.Forall₂ (fun sec key => Point.ofSec sec = .ok key) secs keys ∧
      List.Forall₂ (fun sig signature => sig ≠ [] ∧
        Signature.ofDer sig.dropLast = .ok signature) sigs signatures ∧
      owners.Sublist keys ∧
      List.Forall₂ (fun signature owner => signature.verifies sigHash owner = true)
        signatures owners := by
  have hread : areSigned sigHash secs sigs = true ↔ ∃ keys signatures,
      readMultisig? (secs, sigs) = some (keys, signatures) ∧
        matchSignatures sigHash signatures keys = true := by
    unfold areSigned
    rcases readMultisig? (secs, sigs) with _ | ⟨keys, signatures⟩ <;> simp
  simp only [hread, readMultisig?_eq_some_iff, matchSignatures_iff]
  constructor
  · rintro ⟨keys, signatures, ⟨hkeys, hsigs⟩, owners, hsub, hall⟩
    exact ⟨keys, signatures, owners, hkeys, hsigs, hsub, hall⟩
  · rintro ⟨keys, signatures, owners, hkeys, hsigs, hsub, hall⟩
    exact ⟨keys, signatures, ⟨hkeys, hsigs⟩, owners, hsub, hall⟩

end Operation

namespace Stack

/-- Elements that were pushed one by one are taken off together. -/
theorem popMany_reverse_append {elements rest alt : List Bytes} :
    popMany ⟨elements.reverse ++ rest, alt⟩ elements.length = .ok (elements, ⟨rest, alt⟩) := by
  have hlength : ¬ (elements.reverse ++ rest).length < elements.length := by simp
  rw [popMany, if_neg hlength, List.take_left' (by simp), List.drop_left' (by simp),
    List.reverse_reverse]

theorem popNumber_cons {top : Bytes} {rest alt : List Bytes} {number : ℤ}
    (h : ScriptNumber.decode ScriptNumber.operandLimit top = .ok number) :
    popNumber ⟨top :: rest, alt⟩ = .ok (number, ⟨rest, alt⟩) := by
  change (ScriptNumber.decode ScriptNumber.operandLimit top >>= fun number => _) = _
  rw [h]
  rfl

end Stack

namespace Operation

variable {ctx : Context} {secs sigs : List Bytes} {keyCount sigCount unused : Bytes}
  {rest alt : List Bytes}

theorem multisigOperands_of_decode
    (hkeys : ScriptNumber.decode ScriptNumber.operandLimit keyCount = .ok (secs.length : ℤ))
    (hsigs : ScriptNumber.decode ScriptNumber.operandLimit sigCount = .ok (sigs.length : ℤ))
    (hlimit : secs.length ≤ 20) (hle : sigs.length ≤ secs.length) :
    multisigOperands ⟨keyCount :: (secs.reverse ++ sigCount :: (sigs.reverse ++ unused :: rest)),
      alt⟩ = .ok ((secs, sigs), ⟨rest, alt⟩) := by
  have hkeyCount : ¬ ((secs.length : ℤ) < 0 ∨ keyLimit < secs.length) := by
    unfold keyLimit
    omega
  have hsigCount : ¬ ((sigs.length : ℤ) < 0 ∨ (secs.length : ℤ) < sigs.length) := by omega
  unfold multisigOperands
  rw [Stack.popNumber_cons hkeys]
  simp only [ok_bind, if_neg hkeyCount, Int.toNat_natCast, Stack.popMany_reverse_append,
    Stack.popNumber_cons hsigs, if_neg hsigCount]
  rfl

/-- The check takes the two counts, the elements that they count, and one further element. -/
theorem apply_checkMultisig
    (hkeys : ScriptNumber.decode ScriptNumber.operandLimit keyCount = .ok (secs.length : ℤ))
    (hsigs : ScriptNumber.decode ScriptNumber.operandLimit sigCount = .ok (sigs.length : ℤ))
    (hlimit : secs.length ≤ 20) (hle : sigs.length ≤ secs.length)
    (hroom : Stack.size ⟨rest, alt⟩ < Stack.sizeLimit) :
    checkMultisig.apply ctx
        ⟨keyCount :: (secs.reverse ++ sigCount :: (sigs.reverse ++ unused :: rest)), alt⟩ =
      .ok ⟨ScriptNumber.ofBool (areSigned ctx.sigHash secs sigs) :: rest, alt⟩ := by
  unfold apply
  rw [multisigOperands_of_decode hkeys hsigs hlimit hle]
  exact push_ofBool_iff.mpr ⟨hroom, rfl⟩

end Operation

/-! ## Small numbers -/

namespace ScriptNumber

theorem length_le_of_decode {limit : ℕ} {element : Bytes} {number : ℤ}
    (h : decode limit element = .ok number) : element.length ≤ limit := by
  unfold decode at h
  split at h
  · next hle => exact hle.trans (min_le_left _ _)
  · cases h

/-- The numbers that count the keys of a check are read back. -/
theorem decode_encode_of_le {value : ℕ} (h : value ≤ 20) :
    decode operandLimit (encode value) = .ok (value : ℤ) := by
  have hall : ∀ value : Fin 21,
      (decode operandLimit (encode (value : ℕ))).toOption = some ((value : ℕ) : ℤ) := by
    decide +kernel
  exact eq_ok_of_toOption (hall ⟨value, Nat.lt_succ_of_le h⟩)

theorem length_encode_of_le {value : ℕ} (h : value ≤ 20) :
    (encode value).length ≤ operandLimit := length_le_of_decode (decode_encode_of_le h)

end ScriptNumber

namespace Opcode

/-- Checks several signatures. -/
def checkMultisig : UInt8 := 0xae

/-- The opcode that pushes a number from 1 to 16. -/
def number (value : ℕ) : UInt8 := UInt8.ofNat (0x50 + value)

theorem operation?_number {value : ℕ} (hpos : 1 ≤ value) (hle : value ≤ 16) :
    operation? (number value) = some (.constant value) := by
  interval_cases value <;> rfl

theorem isPlain_number {value : ℕ} (hpos : 1 ≤ value) (hle : value ≤ 16) :
    (Instruction.op (number value)).isPlain = true := by
  interval_cases value <;> rfl

end Opcode

/-! ## Scripts -/

namespace Script

variable {ctx : Context} {s : Stack}

/-- Pushes put their data on top of each other. -/
theorem exec_pushes_append {elements : List Bytes} (rest : Script)
    (helements : ∀ element ∈ elements, element.length ≤ Stack.elementLimit)
    (hroom : s.size + elements.length ≤ Stack.sizeLimit) :
    exec ctx (elements.map .push ++ rest) s =
      exec ctx rest ⟨elements.reverse ++ s.main, s.alt⟩ := by
  induction elements generalizing s with
  | nil => rfl
  | cons element elements ih =>
    obtain ⟨helement, helements⟩ := List.forall_mem_cons.mp helements
    rw [List.length_cons] at hroom
    have hpush : (Instruction.push element).exec ctx s = .ok ⟨element :: s.main, s.alt⟩ :=
      Instruction.exec_push_eq_ok_iff.mpr
        (Stack.push_eq_ok_iff.mpr ⟨helement, by omega, rfl⟩)
    have hroom' : Stack.size ⟨element :: s.main, s.alt⟩ + elements.length ≤ Stack.sizeLimit := by
      simp only [Stack.size, List.length_cons] at hroom ⊢
      omega
    rw [List.map_cons, List.cons_append, exec_plain rfl, hpush, ok_bind, ih helements hroom',
      List.reverse_cons, List.append_assoc, List.singleton_append]

theorem exec_number {value : ℕ} (hpos : 1 ≤ value) (hle : value ≤ 16) (rest : Script)
    (hroom : s.size < Stack.sizeLimit) :
    exec ctx (.op (Opcode.number value) :: rest) s =
      exec ctx rest ⟨ScriptNumber.encode value :: s.main, s.alt⟩ := by
  have hlength : (ScriptNumber.encode value).length ≤ Stack.elementLimit :=
    (ScriptNumber.length_encode_of_le (by omega)).trans (by decide)
  have hexec : (Instruction.op (Opcode.number value)).exec ctx s =
      .ok ⟨ScriptNumber.encode value :: s.main, s.alt⟩ :=
    (Instruction.exec_op_eq_ok_iff (Opcode.operation?_number hpos hle)).mpr
      (Stack.push_eq_ok_iff.mpr ⟨hlength, hroom, rfl⟩)
  rw [exec_plain (Opcode.isPlain_number hpos hle), hexec, ok_bind]

/-- The script that asks for the signatures of `required` owners of the given public keys. -/
def multisig (required : ℕ) (secs : List Bytes) : Script :=
  .op (Opcode.number required) :: (secs.map .push ++
    [.op (Opcode.number secs.length), .op Opcode.checkMultisig])

/-- Of signatures on top of one further element, the script tells whether they match the keys. -/
theorem exec_multisig {secs sigs : List Bytes} {unused : Bytes} {rest alt : List Bytes}
    (hsecs : ∀ sec ∈ secs, sec.length ≤ Stack.elementLimit) (hpos : 1 ≤ sigs.length)
    (hle : sigs.length ≤ secs.length) (hlimit : secs.length ≤ 16)
    (hroom : Stack.size ⟨sigs.reverse ++ unused :: rest, alt⟩ + secs.length + 2 ≤
      Stack.sizeLimit) :
    exec ctx (multisig sigs.length secs) ⟨sigs.reverse ++ unused :: rest, alt⟩ =
      .ok ⟨ScriptNumber.ofBool (Operation.areSigned ctx.sigHash secs sigs) :: rest, alt⟩ := by
  simp only [Stack.size, List.length_append, List.length_reverse, List.length_cons] at hroom
  have hcheck : Operation.apply ctx .checkMultisig
      ⟨ScriptNumber.encode secs.length :: (secs.reverse ++
        ScriptNumber.encode sigs.length :: (sigs.reverse ++ unused :: rest)), alt⟩ = _ :=
    Operation.apply_checkMultisig (ScriptNumber.decode_encode_of_le (by omega))
      (ScriptNumber.decode_encode_of_le (by omega)) (by omega) hle
      (by simp only [Stack.size]; omega)
  have hop : Opcode.operation? Opcode.checkMultisig = some .checkMultisig := rfl
  unfold multisig
  rw [exec_number hpos (hle.trans hlimit), exec_pushes_append _ hsecs,
    exec_number (hpos.trans hle) hlimit, exec_op_eq_ok_iff rfl hop]
  · exact ⟨_, hcheck, exec_nil _⟩
  all_goals
    simp only [Stack.size, List.length_append, List.length_reverse, List.length_cons]
    omega

end Script

end CoinSpend
