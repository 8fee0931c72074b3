import CoinSpend.Curve.Group
import CoinSpend.Ecdsa.Signature
import CoinSpend.Event
import CoinSpend.Script.Stack

/-!
# Running operations

What each operation does to the stacks. The conditionals are not here, since they choose what is run
next; their bytes have no operation.
-/

namespace CoinSpend

/-- What a script sees of the transaction that it is run for. Model of `ExecutionContext`. -/
structure Context where
  /-- The hash that signatures sign. -/
  sigHash : Nat
  version : UInt32
  locktime : UInt32
  sequence : UInt32
deriving DecidableEq, Repr

/-- The context of a version 1 transaction without a locktime, in which an input is final. Model of
`ExecutionContext.new`. -/
def Context.plain (sigHash : Nat) : Context := ⟨sigHash, 1, 0, 0xffffffff⟩

/-- The digest of a message as a stack element. -/
def DigestOperation.apply : DigestOperation → Bytes → Bytes
  | ripemd160, message => (Hash.ripemd160 message).val
  | sha1, message => (Hash.sha1 message).val
  | sha256, message => (Hash.sha256 message).val
  | hash160, message => (Hash.hash160 message).val
  | hash256, message => (Hash.hash256 message).val

namespace Operation

/-- The public key that a stack element writes. -/
def publicKey? (element : Bytes) : Option Point := (Point.ofSec element).toOption

/-- The signature that a stack element writes in front of a last byte, which tells what is signed.
Model of `parse_script_signature`. -/
def signature? (element : Bytes) : Option Signature :=
  if element = [] then none else (Signature.ofDer element.dropLast).toOption

/-- The operands of a check of one signature, and the stacks without them. Model of what
`op_checksig` pops. -/
def sigOperands (s : Stack) : Except ScriptError ((Bytes × Bytes) × Stack) := do
  let (key, s) ← s.pop
  let (signature, s) ← s.pop
  return ((key, signature), s)

/-- The public key and the signature that the operands write. -/
def readSig? (operands : Bytes × Bytes) : Option (Point × Signature) := do
  return (← publicKey? operands.1, ← signature? operands.2)

/-- The most public keys of a check of several signatures. Model of `MAX_PUBKEYS_PER_MULTISIG`. -/
def keyLimit : Int := 20

/-- The operands of a check of several signatures, public keys and signatures both lowest first, and
the stacks without them and without the one further element that the check takes. Model of what
`op_checkmultisig` pops. -/
def multisigOperands (s : Stack) :
    Except ScriptError ((List Bytes × List Bytes) × Stack) := do
  let (keyCount, s) ← s.popNumber
  if keyCount < 0 ∨ keyLimit < keyCount then .error .pubkeyCount
  else
    let (keys, s) ← s.popMany keyCount.toNat
    let (sigCount, s) ← s.popNumber
    if sigCount < 0 ∨ keyCount < sigCount then .error .sigCount
    else
      let (signatures, s) ← s.popMany sigCount.toNat
      let (_, s) ← s.pop
      return ((keys, signatures), s)

/-- The public keys and the signatures that the operands write. -/
def readMultisig? (operands : List Bytes × List Bytes) :
    Option (List Point × List Signature) := do
  return (← operands.1.mapM publicKey?, ← operands.2.mapM signature?)

/-- Whether each signature is by the owner of a key, where the keys stand in the order of the
signatures and none is used twice. A key that was tried is not tried again. Model of the search in
`op_checkmultisig`. -/
def matchSignatures (sigHash : Nat) : List Signature → List Point → Bool
  | [], _ => true
  | signature :: signatures, keys =>
    match keys.dropWhile fun key => !signature.verifies sigHash key with
    | [] => false
    | _ :: keys => matchSignatures sigHash signatures keys

/-- From this number on a locktime is a time and no height. Model of `LOCKTIME_THRESHOLD`. -/
def locktimeThreshold : Int := 500000000

/-- Requires the transaction's locktime to be of the same sort as the number on top, and no less.
Model of `op_checklocktimeverify`. -/
def checkLocktimeOf (ctx : Context) (s : Stack) : Except ScriptError Stack := do
  let required ← ScriptNumber.decode ScriptNumber.locktimeLimit (← s.top 0)
  let actual : Int := ctx.locktime.toNat
  if required < 0 then .error .negativeLocktime
  else if ctx.sequence = 0xffffffff then .error .unsatisfiedLocktime
  else if ¬ (required < locktimeThreshold ↔ actual < locktimeThreshold) then
    .error .unsatisfiedLocktime
  else if actual < required then .error .unsatisfiedLocktime
  else .ok s

/-- The bit that turns a required age off. Model of `SEQUENCE_DISABLE_FLAG`. -/
def sequenceDisabledBit : Nat := 31

/-- The bit that tells an age in time from one in blocks. Model of `SEQUENCE_TYPE_FLAG`. -/
def sequenceTimeBit : Nat := 22

/-- The age in a sequence number: its low 16 bits. Model of the mask `SEQUENCE_MASK`. -/
def sequenceAge (sequence : Nat) : Nat := sequence % 0x10000

/-- Requires the input's sequence number to give an age of the same sort as the number on top, and
no less. Model of `op_checksequenceverify`. -/
def checkSequenceOf (ctx : Context) (s : Stack) : Except ScriptError Stack := do
  let required ← ScriptNumber.decode ScriptNumber.locktimeLimit (← s.top 0)
  let actual := ctx.sequence.toNat
  if required < 0 then .error .negativeLocktime
  else
    let required := required.toNat
    if required.testBit sequenceDisabledBit then .ok s
    else if ctx.version < 2 ∨ actual.testBit sequenceDisabledBit then .error .unsatisfiedLocktime
    else if required.testBit sequenceTimeBit ≠ actual.testBit sequenceTimeBit then
      .error .unsatisfiedLocktime
    else if sequenceAge actual < sequenceAge required then .error .unsatisfiedLocktime
    else .ok s

/-- The depth on top of the main stack, which must lie inside what is below it. Model of what the
branches of `OP_PICK` and `OP_ROLL` pop. -/
def popDepth (s : Stack) : Except ScriptError (Nat × Stack) := do
  let (place, s) ← s.popNumber
  if place < 0 ∨ s.main.length ≤ place.toNat then .error .tooFewItems
  else return (place.toNat, s)

/-- The stacks after an operation. Model of the branches of `execute`. -/
def apply (ctx : Context) : Operation → Stack → Except ScriptError Stack
  | constant value, s => s.push (ScriptNumber.encode value)
  | nop, s => .ok s
  | fail, _ => .error .returned
  | toAlt, s => do
    let (top, s) ← s.pop
    s.pushAlt top
  | fromAlt, s => do
    let (top, s) ← s.popAlt
    s.push top
  | shuffle kind, s =>
    match kind.apply s.main with
    | none => .error .tooFewItems
    | some main => Stack.checkSize { s with main := main }
  | dupIfTrue, s => do
    let top ← s.top 0
    if ScriptNumber.isTrue top then s.push top else .ok s
  | depth, s => s.push (ScriptNumber.encode s.main.length)
  | pick, s => do
    let (place, s) ← popDepth s
    s.push (← s.top place)
  | roll, s => do
    let (place, s) ← popDepth s
    let (element, s) ← s.remove place
    s.push element
  | size, s => do s.push (ScriptNumber.encode (← s.top 0).length)
  | equal, s => do
    let (b, s) ← s.pop
    let (a, s) ← s.pop
    s.push (ScriptNumber.ofBool (a = b))
  | unary kind, s => do
    let (a, s) ← s.popNumber
    s.push (ScriptNumber.encode (kind.apply a))
  | binary kind, s => do
    let (b, s) ← s.popNumber
    let (a, s) ← s.popNumber
    s.push (ScriptNumber.encode (kind.apply a b))
  | within, s => do
    let (upper, s) ← s.popNumber
    let (lower, s) ← s.popNumber
    let (x, s) ← s.popNumber
    s.push (ScriptNumber.ofBool (lower ≤ x ∧ x < upper))
  | digest kind, s => do
    let (top, s) ← s.pop
    s.push (kind.apply top)
  | checkSig, s => do
    let (operands, s) ← sigOperands s
    let valid := match readSig? operands with
      | none => false
      | some (key, signature) => signature.verifies ctx.sigHash key
    s.push (ScriptNumber.ofBool valid)
  | checkMultisig, s => do
    let (operands, s) ← multisigOperands s
    let valid := match readMultisig? operands with
      | none => false
      | some (keys, signatures) => matchSignatures ctx.sigHash signatures keys
    s.push (ScriptNumber.ofBool valid)
  | checkLocktime, s => checkLocktimeOf ctx s
  | checkSequence, s => checkSequenceOf ctx s
  | verified operation otherwise, s => do
    let s ← operation.apply ctx s
    s.verifyTop otherwise

/-- What is worth telling about an operation on given stacks: operands of a signature check that
cannot be read. -/
def events (s : Stack) : Operation → List Event
  | checkSig =>
    match sigOperands s with
    | .ok (operands, _) =>
      if (readSig? operands).isNone then [.unreadableOperands "OP_CHECKSIG"] else []
    | .error _ => []
  | checkMultisig =>
    match multisigOperands s with
    | .ok (operands, _) =>
      if (readMultisig? operands).isNone then [.unreadableOperands "OP_CHECKMULTISIG"] else []
    | .error _ => []
  | verified operation _ => operation.events s
  | _ => []

end Operation

namespace Opcode

/-- The stacks after the operation of a byte. Model of `execute`. -/
def execute (ctx : Context) (code : UInt8) (s : Stack) : Except ScriptError Stack :=
  match operation? code with
  | none => .error (.badOpcode code)
  | some operation => operation.apply ctx s

/-- What is worth telling about the operation of a byte. -/
def events (code : UInt8) (s : Stack) : List Event :=
  match operation? code with
  | none => []
  | some operation => operation.events s

end Opcode

end CoinSpend
