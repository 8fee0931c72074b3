import CoinSpend.Proofs.Outcome
import CoinSpend.Proofs.Script.Exec
import Mathlib

/-!
# When operations succeed

What an operation needs of the stacks, and the stacks that it leaves, for the operations of the
common locking scripts.

Results:
* `Stack.pop_eq_ok_iff`, `Stack.checkSize_eq_ok_iff`: the primitives.
* `Operation.apply_dup_iff`, `Operation.apply_digest_iff`, `Operation.apply_equal_iff`,
  `Operation.apply_verified_iff`, `Operation.apply_checkSig_iff`: the operations.
* `Opcode.execute_of_operation?`, `Script.exec_op_eq_ok_iff` and the lemmas behind it: opcodes that
  are an operation, and scripts that start with one.
-/

namespace CoinSpend

/-! ## Truth values -/

namespace ScriptNumber

theorem ofBool_true : ofBool true = [1] := by
  simp [ofBool, encode, Bytes.digitsLE, Bytes.width, Bytes.ofNatLE, withSign]

theorem ofBool_false : ofBool false = [] := by
  simp [ofBool, encode, Bytes.digitsLE, Bytes.width, Bytes.ofNatLE, withSign]

@[simp] theorem isTrue_ofBool (b : Bool) : isTrue (ofBool b) = b := by
  cases b with
  | false => rw [ofBool_false]; rfl
  | true => rw [ofBool_true]; rfl

theorem ofBool_ne_nil_iff {b : Bool} : ofBool b ≠ [] ↔ b = true := by
  cases b with
  | false => simp [ofBool_false]
  | true => simp [ofBool_true]

theorem length_ofBool_le (b : Bool) : (ofBool b).length ≤ 1 := by
  cases b with
  | false => rw [ofBool_false]; decide
  | true => rw [ofBool_true]; decide

end ScriptNumber

/-! ## Primitives -/

namespace Stack

theorem checkSize_eq_ok_iff {s t : Stack} :
    checkSize s = .ok t ↔ s.size ≤ sizeLimit ∧ t = s := by
  unfold checkSize
  by_cases h : s.size ≤ sizeLimit <;> simp [h, eq_comm]

theorem pop_eq_ok_iff {s t : Stack} {top : Bytes} :
    s.pop = .ok (top, t) ↔ s.main = top :: t.main ∧ s.alt = t.alt := by
  obtain ⟨main, alt⟩ := s
  obtain ⟨main', alt'⟩ := t
  cases main <;> simp [pop, and_assoc]

theorem verifyTop_eq_ok_iff {s t : Stack} {otherwise : ScriptError} :
    s.verifyTop otherwise = .ok t ↔
      ∃ top, s.main = top :: t.main ∧ s.alt = t.alt ∧ ScriptNumber.isTrue top = true := by
  unfold verifyTop
  rw [bind_eq_ok_iff]
  constructor
  · rintro ⟨⟨top, s'⟩, hpop, h⟩
    simp only at h
    split at h
    · next htrue =>
      cases h
      obtain ⟨hmain, halt⟩ := pop_eq_ok_iff.mp hpop
      exact ⟨top, hmain, halt, htrue⟩
    · simp at h
  · rintro ⟨top, hmain, halt, htrue⟩
    exact ⟨(top, t), pop_eq_ok_iff.mpr ⟨hmain, halt⟩, if_pos htrue⟩

end Stack

/-! ## Operations -/

theorem Opcode.execute_of_operation? {ctx : Context} {code : UInt8} {operation : Operation}
    (h : operation? code = some operation) {s : Stack} :
    execute ctx code s = operation.apply ctx s := by
  unfold execute
  rw [h]

namespace Instruction

theorem blame_eq_ok_iff {α : Type} {i : Instruction} {x : Except ScriptError α} {a : α} :
    i.blame x = .ok a ↔ x = .ok a := mapError_eq_ok_iff

theorem exec_push_eq_ok_iff {ctx : Context} {data : Bytes} {s t : Stack} :
    (push data).exec ctx s = .ok t ↔ s.push data = .ok t := blame_eq_ok_iff

theorem exec_op_eq_ok_iff {ctx : Context} {code : UInt8} {operation : Operation}
    (h : Opcode.operation? code = some operation) {s t : Stack} :
    (op code).exec ctx s = .ok t ↔ operation.apply ctx s = .ok t := by
  rw [← Opcode.execute_of_operation? h]
  exact blame_eq_ok_iff

end Instruction

namespace Operation

variable {ctx : Context} {s t : Stack}

theorem apply_dup_iff :
    (shuffle .dup).apply ctx s = .ok t ↔
      ∃ top rest, s.main = top :: rest ∧ s.size + 1 ≤ Stack.sizeLimit ∧
        t = ⟨top :: top :: rest, s.alt⟩ := by
  obtain ⟨main, alt⟩ := s
  cases main with
  | nil => simp [apply, Shuffle.apply]
  | cons top rest =>
    have hsize : Stack.size ⟨top :: top :: rest, alt⟩ = Stack.size ⟨top :: rest, alt⟩ + 1 := by
      simp only [Stack.size, List.length_cons]
      omega
    simp only [apply, Shuffle.apply, Stack.checkSize_eq_ok_iff, hsize]
    constructor
    · rintro ⟨hle, rfl⟩
      exact ⟨top, rest, rfl, hle, rfl⟩
    · rintro ⟨top', rest', heq, hle, rfl⟩
      cases heq
      exact ⟨hle, rfl⟩

theorem length_digest_le (kind : DigestOperation) (message : Bytes) :
    (kind.apply message).length ≤ Stack.elementLimit := by
  have hfixed : ∀ {n : ℕ} (value : FixedBytes n), n ≤ Stack.elementLimit →
      value.val.length ≤ Stack.elementLimit := fun value hn => value.property.trans_le hn
  cases kind
  · exact hfixed (Hash.ripemd160 message) (by decide)
  · exact hfixed (Hash.sha1 message) (by decide)
  · exact hfixed (Hash.sha256 message) (by decide)
  · exact hfixed (Hash.hash160 message) (by decide)
  · exact hfixed (Hash.hash256 message) (by decide)

theorem apply_digest_iff {kind : DigestOperation} :
    (digest kind).apply ctx s = .ok t ↔
      ∃ top rest, s.main = top :: rest ∧ s.size ≤ Stack.sizeLimit ∧
        t = ⟨kind.apply top :: rest, s.alt⟩ := by
  obtain ⟨main, alt⟩ := s
  cases main with
  | nil => simp [apply, Stack.pop]
  | cons top rest =>
    simp only [apply, Stack.pop, ok_bind, Stack.push_eq_ok_iff, length_digest_le, true_and,
      List.cons.injEq, Stack.size, List.length_cons]
    constructor
    · rintro ⟨hlt, rfl⟩
      exact ⟨top, rest, ⟨rfl, rfl⟩, by omega, rfl⟩
    · rintro ⟨_, _, ⟨rfl, rfl⟩, hle, rfl⟩
      exact ⟨by omega, rfl⟩

theorem push_ofBool_iff {b : Bool} :
    s.push (ScriptNumber.ofBool b) = .ok t ↔
      s.size < Stack.sizeLimit ∧ t = ⟨ScriptNumber.ofBool b :: s.main, s.alt⟩ := by
  have hlength : (ScriptNumber.ofBool b).length ≤ Stack.elementLimit :=
    (ScriptNumber.length_ofBool_le b).trans (by decide)
  rw [Stack.push_eq_ok_iff]
  simp only [hlength, true_and]

theorem apply_equal_iff :
    equal.apply ctx s = .ok t ↔
      ∃ a b rest, s.main = b :: a :: rest ∧ s.size ≤ Stack.sizeLimit + 1 ∧
        t = ⟨ScriptNumber.ofBool (a = b) :: rest, s.alt⟩ := by
  obtain ⟨main, alt⟩ := s
  match main with
  | [] => simp [apply, Stack.pop]
  | [b] => simp [apply, Stack.pop]
  | b :: a :: rest =>
    simp only [apply, Stack.pop, ok_bind, push_ofBool_iff, List.cons.injEq, Stack.size,
      List.length_cons]
    constructor
    · rintro ⟨hlt, rfl⟩
      exact ⟨a, b, rest, ⟨rfl, rfl, rfl⟩, by omega, rfl⟩
    · rintro ⟨_, _, _, ⟨rfl, rfl, rfl⟩, hle, rfl⟩
      exact ⟨by omega, rfl⟩

theorem apply_verified_iff {operation : Operation} {otherwise : ScriptError} :
    (verified operation otherwise).apply ctx s = .ok t ↔
      ∃ top, ScriptNumber.isTrue top = true ∧
        operation.apply ctx s = .ok ⟨top :: t.main, t.alt⟩ := by
  simp only [apply, bind_eq_ok_iff, Stack.verifyTop_eq_ok_iff]
  constructor
  · rintro ⟨⟨main, alt⟩, happly, top, rfl, rfl, htrue⟩
    exact ⟨top, htrue, happly⟩
  · rintro ⟨top, htrue, happly⟩
    exact ⟨_, happly, top, rfl, rfl, htrue⟩

/-- Whether a stack element is a public key under which another one is a signature. -/
def isSigned (sigHash : ℕ) (key signature : Bytes) : Bool :=
  match readSig? (key, signature) with
  | none => false
  | some (key, signature) => signature.verifies sigHash key

theorem isSigned_iff {sigHash : ℕ} {sec sig : Bytes} :
    isSigned sigHash sec sig = true ↔ ∃ key signature, Point.ofSec sec = .ok key ∧ sig ≠ [] ∧
      Signature.ofDer sig.dropLast = .ok signature ∧ signature.verifies sigHash key = true := by
  unfold isSigned readSig? publicKey? signature?
  cases hkey : Point.ofSec sec with
  | error e => simp [Except.toOption]
  | ok key =>
    by_cases hsig : sig = []
    · simp [hsig, Except.toOption]
    · cases hder : Signature.ofDer sig.dropLast with
      | error e => simp [hsig, Except.toOption]
      | ok signature => simp [hsig, Except.toOption]

theorem apply_checkSig_iff :
    checkSig.apply ctx s = .ok t ↔
      ∃ sec sig rest, s.main = sec :: sig :: rest ∧ s.size ≤ Stack.sizeLimit + 1 ∧
        t = ⟨ScriptNumber.ofBool (isSigned ctx.sigHash sec sig) :: rest, s.alt⟩ := by
  obtain ⟨main, alt⟩ := s
  match main with
  | [] => simp [apply, sigOperands, Stack.pop]
  | [sec] => simp [apply, sigOperands, Stack.pop]
  | sec :: sig :: rest =>
    change Stack.push ⟨rest, alt⟩ (ScriptNumber.ofBool (isSigned ctx.sigHash sec sig)) = .ok t ↔ _
    simp only [push_ofBool_iff, List.cons.injEq, Stack.size, List.length_cons]
    constructor
    · rintro ⟨hlt, rfl⟩
      exact ⟨sec, sig, rest, ⟨rfl, rfl, rfl⟩, by omega, rfl⟩
    · rintro ⟨_, _, _, ⟨rfl, rfl, rfl⟩, hle, rfl⟩
      exact ⟨by omega, rfl⟩

end Operation

/-! ## Scripts that start with an operation -/

namespace Script

variable {ctx : Context} {rest : Script} {s t : Stack}

theorem exec_op_eq_ok_iff {code : UInt8} {operation : Operation}
    (hplain : (Instruction.op code).isPlain = true)
    (h : Opcode.operation? code = some operation) :
    exec ctx (.op code :: rest) s = .ok t ↔
      ∃ u, operation.apply ctx s = .ok u ∧ exec ctx rest u = .ok t := by
  rw [exec_plain_eq_ok_iff hplain]
  simp only [Instruction.exec_op_eq_ok_iff h]

theorem exec_push_eq_ok_iff {data : Bytes} :
    exec ctx (.push data :: rest) s = .ok t ↔
      data.length ≤ Stack.elementLimit ∧ s.size < Stack.sizeLimit ∧
        exec ctx rest ⟨data :: s.main, s.alt⟩ = .ok t := by
  rw [exec_plain_eq_ok_iff rfl]
  simp only [Instruction.exec_push_eq_ok_iff, Stack.push_eq_ok_iff]
  constructor
  · rintro ⟨_, ⟨hlength, hroom, rfl⟩, hrest⟩
    exact ⟨hlength, hroom, hrest⟩
  · rintro ⟨hlength, hroom, hrest⟩
    exact ⟨_, ⟨hlength, hroom, rfl⟩, hrest⟩

theorem exec_dup_eq_ok_iff :
    exec ctx (.op Opcode.dup :: rest) s = .ok t ↔
      ∃ top below, s.main = top :: below ∧ s.size + 1 ≤ Stack.sizeLimit ∧
        exec ctx rest ⟨top :: top :: below, s.alt⟩ = .ok t := by
  have hop : Opcode.operation? Opcode.dup = some (.shuffle .dup) := rfl
  rw [exec_op_eq_ok_iff rfl hop]
  simp only [Operation.apply_dup_iff]
  constructor
  · rintro ⟨_, ⟨top, below, hmain, hroom, rfl⟩, hrest⟩
    exact ⟨top, below, hmain, hroom, hrest⟩
  · rintro ⟨top, below, hmain, hroom, hrest⟩
    exact ⟨_, ⟨top, below, hmain, hroom, rfl⟩, hrest⟩

theorem exec_hash160_eq_ok_iff :
    exec ctx (.op Opcode.hash160 :: rest) s = .ok t ↔
      ∃ top below, s.main = top :: below ∧ s.size ≤ Stack.sizeLimit ∧
        exec ctx rest ⟨(Hash.hash160 top).val :: below, s.alt⟩ = .ok t := by
  have hop : Opcode.operation? Opcode.hash160 = some (.digest .hash160) := rfl
  rw [exec_op_eq_ok_iff rfl hop]
  simp only [Operation.apply_digest_iff]
  constructor
  · rintro ⟨_, ⟨top, below, hmain, hroom, rfl⟩, hrest⟩
    exact ⟨top, below, hmain, hroom, hrest⟩
  · rintro ⟨top, below, hmain, hroom, hrest⟩
    exact ⟨_, ⟨top, below, hmain, hroom, rfl⟩, hrest⟩

theorem exec_equal_eq_ok_iff :
    exec ctx (.op Opcode.equal :: rest) s = .ok t ↔
      ∃ a b below, s.main = b :: a :: below ∧ s.size ≤ Stack.sizeLimit + 1 ∧
        exec ctx rest ⟨ScriptNumber.ofBool (a = b) :: below, s.alt⟩ = .ok t := by
  have hop : Opcode.operation? Opcode.equal = some .equal := rfl
  rw [exec_op_eq_ok_iff rfl hop]
  simp only [Operation.apply_equal_iff]
  constructor
  · rintro ⟨_, ⟨a, b, below, hmain, hroom, rfl⟩, hrest⟩
    exact ⟨a, b, below, hmain, hroom, hrest⟩
  · rintro ⟨a, b, below, hmain, hroom, hrest⟩
    exact ⟨_, ⟨a, b, below, hmain, hroom, rfl⟩, hrest⟩

theorem exec_equalVerify_eq_ok_iff :
    exec ctx (.op Opcode.equalVerify :: rest) s = .ok t ↔
      ∃ a below, s.main = a :: a :: below ∧ s.size ≤ Stack.sizeLimit + 1 ∧
        exec ctx rest ⟨below, s.alt⟩ = .ok t := by
  have hop : Opcode.operation? Opcode.equalVerify =
      some (.verified .equal .equalVerify) := rfl
  rw [exec_op_eq_ok_iff rfl hop]
  simp only [Operation.apply_verified_iff, Operation.apply_equal_iff]
  constructor
  · rintro ⟨⟨main, alt⟩, ⟨_, htrue, a, b, below, hmain, hroom, heq⟩, hrest⟩
    cases heq
    rw [ScriptNumber.isTrue_ofBool, decide_eq_true_eq] at htrue
    subst htrue
    exact ⟨a, main, hmain, hroom, hrest⟩
  · rintro ⟨a, below, hmain, hroom, hrest⟩
    refine ⟨_, ⟨ScriptNumber.ofBool (a = a), ?_, a, a, below, hmain, hroom, rfl⟩, hrest⟩
    rw [ScriptNumber.isTrue_ofBool, decide_eq_true_eq]

theorem exec_checkSig_eq_ok_iff :
    exec ctx (.op Opcode.checkSig :: rest) s = .ok t ↔
      ∃ sec sig below, s.main = sec :: sig :: below ∧ s.size ≤ Stack.sizeLimit + 1 ∧
        exec ctx rest ⟨ScriptNumber.ofBool (Operation.isSigned ctx.sigHash sec sig) :: below,
          s.alt⟩ = .ok t := by
  have hop : Opcode.operation? Opcode.checkSig = some .checkSig := rfl
  rw [exec_op_eq_ok_iff rfl hop]
  simp only [Operation.apply_checkSig_iff]
  constructor
  · rintro ⟨_, ⟨sec, sig, below, hmain, hroom, rfl⟩, hrest⟩
    exact ⟨sec, sig, below, hmain, hroom, hrest⟩
  · rintro ⟨sec, sig, below, hmain, hroom, hrest⟩
    exact ⟨_, ⟨sec, sig, below, hmain, hroom, rfl⟩, hrest⟩

end Script

end CoinSpend
