import CoinSpend.Bytes
import CoinSpend.Script.Opcode

/-!
# Scripts

A script is a list of instructions: opcode bytes and pushes of data.
-/

namespace CoinSpend

/-- One instruction of a script. Model of `Cmd`. -/
inductive Instruction where
  /-- An opcode byte. -/
  | op (code : UInt8)
  /-- A push of data. -/
  | push (data : Bytes)
deriving DecidableEq, Repr

namespace Instruction

/-- The written form of an instruction: the name of an opcode, or the data in hexadecimal digits.
Model of the display of `Cmd`. -/
def render : Instruction → String
  | op code =>
    match Opcode.name? code with
    | some name => name
    | none => s!"OP_[{code.toNat}]"
  | push data => Hex.encode data

/-- Whether the instruction is a given opcode. Model of `Cmd.is_op`. -/
def isOp (code : UInt8) : Instruction → Bool
  | op c => c == code
  | push _ => false

/-- The data of a push. Model of `Cmd.push_data`. -/
def data? : Instruction → Option Bytes
  | op _ => none
  | push data => some data

end Instruction

/-- A list of instructions, first instruction first. Model of `Script`. -/
abbrev Script := List Instruction

namespace Script

/-- The written form of a script. Model of the display of `Script`. -/
def render (script : Script) : String := " ".intercalate (script.map Instruction.render)

/-- The locking script that pays to the owner of a public key with the given hash. Model of
`Script.p2pkh`. -/
def payToKeyHash (hash : FixedBytes 20) : Script :=
  [.op Opcode.dup, .op Opcode.hash160, .push hash.val, .op Opcode.equalVerify,
    .op Opcode.checkSig]

/-- The locking script that pays to a script with the given hash. Model of `Script.p2sh`. -/
def payToScriptHash (hash : FixedBytes 20) : Script :=
  [.op Opcode.hash160, .push hash.val, .op Opcode.equal]

/-- The hash that a script in the form of `payToKeyHash` pays to. Model of
`Script.is_p2pkh_script_pubkey`. -/
def keyHash? : Script → Option (FixedBytes 20)
  | [.op o₁, .op o₂, .push hash, .op o₃, .op o₄] =>
    if h : hash.length = 20 then
      if o₁ = Opcode.dup ∧ o₂ = Opcode.hash160 ∧ o₃ = Opcode.equalVerify ∧ o₄ = Opcode.checkSig
      then some ⟨hash, h⟩
      else none
    else none
  | _ => none

/-- The hash that a script in the form of `payToScriptHash` pays to. Model of
`Script.is_p2sh_script_pubkey`. -/
def scriptHash? : Script → Option (FixedBytes 20)
  | [.op o₁, .push hash, .op o₂] =>
    if h : hash.length = 20 then
      if o₁ = Opcode.hash160 ∧ o₂ = Opcode.equal then some ⟨hash, h⟩ else none
    else none
  | _ => none

/-- The hash that a script of either form pays to. Model of `Script.payee_hash160`. -/
def payeeHash? (script : Script) : Option (FixedBytes 20) :=
  script.keyHash? <|> script.scriptHash?

theorem keyHash?_eq_some_iff {script : Script} {hash : FixedBytes 20} :
    script.keyHash? = some hash ↔ script = payToKeyHash hash := by
  constructor
  · intro h
    unfold keyHash? at h
    split at h
    · split at h
      · split at h
        · next hops =>
          obtain ⟨rfl, rfl, rfl, rfl⟩ := hops
          simp only [Option.some.injEq] at h
          subst h
          rfl
        · simp at h
      · simp at h
    · simp at h
  · rintro rfl
    simp [keyHash?, payToKeyHash, hash.property]

theorem scriptHash?_eq_some_iff {script : Script} {hash : FixedBytes 20} :
    script.scriptHash? = some hash ↔ script = payToScriptHash hash := by
  constructor
  · intro h
    unfold scriptHash? at h
    split at h
    · split at h
      · split at h
        · next hops =>
          obtain ⟨rfl, rfl⟩ := hops
          simp only [Option.some.injEq] at h
          subst h
          rfl
        · simp at h
      · simp at h
    · simp at h
  · rintro rfl
    simp [scriptHash?, payToScriptHash, hash.property]

end Script

end CoinSpend
