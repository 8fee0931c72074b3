import CoinSpend.Text.Hex

/-!
# What opcodes do and how they fail

The operations of scripts apart from conditionals, sorted into families: rearrangements of the top
of the stack, arithmetic, digests, signature checks and locktime checks. A script fails for one of a
few causes, each with a wording of its own.
-/

namespace CoinSpend

/-! ## Causes of failure -/

/-- The causes of failure in script execution. Model of `ScriptError`. -/
inductive ScriptError where
  /-- An operation needs more elements than the main stack holds. -/
  | tooFewItems
  /-- The alternative stack is empty. -/
  | emptyAltStack
  /-- An element is too long. -/
  | pushSize
  /-- The two stacks hold too many elements. -/
  | stackSize
  /-- A numeric operand is too long. -/
  | numberOverflow
  /-- The checked element is false, after no other operation. -/
  | verify
  /-- The checked element is false, after a comparison of byte strings. -/
  | equalVerify
  /-- The checked element is false, after a comparison of numbers. -/
  | numEqualVerify
  /-- The checked element is false, after a signature check. -/
  | checkSigVerify
  /-- The checked element is false, after a check of several signatures. -/
  | checkMultisigVerify
  /-- The operation that always fails. -/
  | returned
  /-- The conditionals do not nest. -/
  | unbalancedConditional
  /-- The byte has no operation. -/
  | badOpcode (code : UInt8)
  /-- The number of public keys is out of range. -/
  | pubkeyCount
  /-- The number of signatures is out of range. -/
  | sigCount
  /-- A required locktime is negative. -/
  | negativeLocktime
  /-- The transaction does not meet a required locktime. -/
  | unsatisfiedLocktime
  /-- The redeem script does not have the hash that the output names. -/
  | redeemHashMismatch
  /-- The redeem script is malformed. -/
  | badRedeemScript
  /-- The run ended without a true element on top. -/
  | evalFalse
deriving DecidableEq, Repr

/-- The wording of a cause. Model of the display of `ScriptError`. -/
def ScriptError.message : ScriptError → String
  | tooFewItems => "Operation on too few stack items"
  | emptyAltStack => "Operation on an empty alt stack"
  | pushSize => "Pushed element exceeds 520 bytes"
  | stackSize => "Stack size limit exceeded"
  | numberOverflow => "Numeric operand too long"
  | verify => "OP_VERIFY failed"
  | equalVerify => "OP_EQUALVERIFY failed"
  | numEqualVerify => "OP_NUMEQUALVERIFY failed"
  | checkSigVerify => "OP_CHECKSIGVERIFY failed"
  | checkMultisigVerify => "OP_CHECKMULTISIGVERIFY failed"
  | returned => "OP_RETURN encountered"
  | unbalancedConditional => "Unbalanced conditional"
  | badOpcode code => s!"Disabled or unknown opcode {Hex.ofByte code}"
  | pubkeyCount => "Public key count out of range"
  | sigCount => "Signature count out of range"
  | negativeLocktime => "Negative locktime"
  | unsatisfiedLocktime => "Locktime requirement not satisfied"
  | redeemHashMismatch => "Redeem script hash mismatch"
  | badRedeemScript => "Redeem script does not parse"
  | evalFalse => "Script finished with a false stack top"

/-! ## Operations -/

/-- Rearrangements of the topmost elements, which look at none of them. -/
inductive Shuffle where
  | drop
  | drop2
  | dup
  | dup2
  | dup3
  | nip
  | copyBelow
  | copyBelow2
  | rot
  | rot2
  | swap
  | swap2
  | tuck
deriving DecidableEq, Repr

/-- Arithmetic on one number. -/
inductive UnaryOperation where
  | increment
  | decrement
  | negate
  | absolute
  | isZero
  | isNonzero
deriving DecidableEq, Repr

/-- Arithmetic on two numbers. -/
inductive BinaryOperation where
  | add
  | sub
  | and
  | or
  | equal
  | notEqual
  | less
  | greater
  | lessEqual
  | greaterEqual
  | min
  | max
deriving DecidableEq, Repr

/-- The digests that scripts can take. -/
inductive DigestOperation where
  | ripemd160
  | sha1
  | sha256
  | hash160
  | hash256
deriving DecidableEq, Repr

/-- The operations of scripts. Each models a branch of `execute`. -/
inductive Operation where
  /-- Pushes a number. -/
  | constant (value : Int)
  /-- Does nothing. -/
  | nop
  /-- Fails. -/
  | fail
  /-- Moves the top to the alternative stack. -/
  | toAlt
  /-- Moves the top of the alternative stack back. -/
  | fromAlt
  /-- Rearranges the topmost elements. -/
  | shuffle (kind : Shuffle)
  /-- Copies the top if it is true. -/
  | dupIfTrue
  /-- Pushes the number of elements. -/
  | depth
  /-- Copies the element at a depth that is taken off the stack. -/
  | pick
  /-- Moves the element at a depth that is taken off the stack. -/
  | roll
  /-- Pushes the length of the top. -/
  | size
  /-- Compares two elements. -/
  | equal
  /-- Replaces a number. -/
  | unary (kind : UnaryOperation)
  /-- Replaces two numbers. -/
  | binary (kind : BinaryOperation)
  /-- Tells whether a number lies between two others. -/
  | within
  /-- Replaces the top by a digest of it. -/
  | digest (kind : DigestOperation)
  /-- Checks a signature under a public key. -/
  | checkSig
  /-- Checks several signatures under several public keys. -/
  | checkMultisig
  /-- Requires a locktime of the transaction. -/
  | checkLocktime
  /-- Requires an age of the spent output. -/
  | checkSequence
  /-- Runs an operation, then takes the top, which must be true. -/
  | verified (operation : Operation) (otherwise : ScriptError)
deriving DecidableEq, Repr

namespace Shuffle

/-- The main stack after a rearrangement, if there are enough elements. Model of the branches of
`execute` that move elements, by what they come to. -/
def apply : Shuffle → List Bytes → Option (List Bytes)
  | drop, _ :: s => some s
  | drop2, _ :: _ :: s => some s
  | dup, a :: s => some (a :: a :: s)
  | dup2, a :: b :: s => some (a :: b :: a :: b :: s)
  | dup3, a :: b :: c :: s => some (a :: b :: c :: a :: b :: c :: s)
  | nip, a :: _ :: s => some (a :: s)
  | copyBelow, a :: b :: s => some (b :: a :: b :: s)
  | copyBelow2, a :: b :: c :: d :: s => some (c :: d :: a :: b :: c :: d :: s)
  | rot, a :: b :: c :: s => some (c :: a :: b :: s)
  | rot2, a :: b :: c :: d :: e :: f :: s => some (e :: f :: a :: b :: c :: d :: s)
  | swap, a :: b :: s => some (b :: a :: s)
  | swap2, a :: b :: c :: d :: s => some (c :: d :: a :: b :: s)
  | tuck, a :: b :: s => some (a :: b :: a :: s)
  | _, _ => none

end Shuffle

/-- The result of arithmetic on one number. Truth values are one and zero. Model of the branches of
`execute` from `OP_1ADD` to `OP_0NOTEQUAL`. -/
def UnaryOperation.apply : UnaryOperation → Int → Int
  | increment, a => a + 1
  | decrement, a => a - 1
  | negate, a => -a
  | absolute, a => a.natAbs
  | isZero, a => if a = 0 then 1 else 0
  | isNonzero, a => if a ≠ 0 then 1 else 0

/-- The result of arithmetic on two numbers, of which `b` is the topmost. Truth values are one and
zero. Model of the branches of `execute` from `OP_ADD` to `OP_MAX`. -/
def BinaryOperation.apply : BinaryOperation → Int → Int → Int
  | add, a, b => a + b
  | sub, a, b => a - b
  | and, a, b => if a ≠ 0 ∧ b ≠ 0 then 1 else 0
  | or, a, b => if a ≠ 0 ∨ b ≠ 0 then 1 else 0
  | equal, a, b => if a = b then 1 else 0
  | notEqual, a, b => if a ≠ b then 1 else 0
  | less, a, b => if a < b then 1 else 0
  | greater, a, b => if b < a then 1 else 0
  | lessEqual, a, b => if a ≤ b then 1 else 0
  | greaterEqual, a, b => if b ≤ a then 1 else 0
  | min, a, b => if a ≤ b then a else b
  | max, a, b => if a ≤ b then b else a

end CoinSpend
