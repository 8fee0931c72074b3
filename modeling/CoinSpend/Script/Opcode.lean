import CoinSpend.Script.Operation

/-!
# Opcodes

The bytes that stand for operations, with their names. A byte that has a name but no operation here
is a conditional, the header of a push, or disabled.
-/

namespace CoinSpend.Opcode

/-- A byte with its name and, if it has one, its operation. -/
structure Entry where
  code : UInt8
  name : String
  operation : Option Operation

/-- The named bytes in increasing order. Model of the names in `op_name`, and of the branches of
`execute`. -/
def table : List Entry := [
  ⟨0x00, "OP_0", some (.constant 0)⟩,
  ⟨0x4c, "OP_PUSHDATA1", none⟩,
  ⟨0x4d, "OP_PUSHDATA2", none⟩,
  ⟨0x4e, "OP_PUSHDATA4", none⟩,
  ⟨0x4f, "OP_1NEGATE", some (.constant (-1))⟩,
  ⟨0x50, "OP_RESERVED", none⟩,
  ⟨0x51, "OP_1", some (.constant 1)⟩,
  ⟨0x52, "OP_2", some (.constant 2)⟩,
  ⟨0x53, "OP_3", some (.constant 3)⟩,
  ⟨0x54, "OP_4", some (.constant 4)⟩,
  ⟨0x55, "OP_5", some (.constant 5)⟩,
  ⟨0x56, "OP_6", some (.constant 6)⟩,
  ⟨0x57, "OP_7", some (.constant 7)⟩,
  ⟨0x58, "OP_8", some (.constant 8)⟩,
  ⟨0x59, "OP_9", some (.constant 9)⟩,
  ⟨0x5a, "OP_10", some (.constant 10)⟩,
  ⟨0x5b, "OP_11", some (.constant 11)⟩,
  ⟨0x5c, "OP_12", some (.constant 12)⟩,
  ⟨0x5d, "OP_13", some (.constant 13)⟩,
  ⟨0x5e, "OP_14", some (.constant 14)⟩,
  ⟨0x5f, "OP_15", some (.constant 15)⟩,
  ⟨0x60, "OP_16", some (.constant 16)⟩,
  ⟨0x61, "OP_NOP", some .nop⟩,
  ⟨0x62, "OP_VER", none⟩,
  ⟨0x63, "OP_IF", none⟩,
  ⟨0x64, "OP_NOTIF", none⟩,
  ⟨0x65, "OP_VERIF", none⟩,
  ⟨0x66, "OP_VERNOTIF", none⟩,
  ⟨0x67, "OP_ELSE", none⟩,
  ⟨0x68, "OP_ENDIF", none⟩,
  ⟨0x69, "OP_VERIFY", some (.verified .nop .verify)⟩,
  ⟨0x6a, "OP_RETURN", some .fail⟩,
  ⟨0x6b, "OP_TOALTSTACK", some .toAlt⟩,
  ⟨0x6c, "OP_FROMALTSTACK", some .fromAlt⟩,
  ⟨0x6d, "OP_2DROP", some (.shuffle .drop2)⟩,
  ⟨0x6e, "OP_2DUP", some (.shuffle .dup2)⟩,
  ⟨0x6f, "OP_3DUP", some (.shuffle .dup3)⟩,
  ⟨0x70, "OP_2OVER", some (.shuffle .copyBelow2)⟩,
  ⟨0x71, "OP_2ROT", some (.shuffle .rot2)⟩,
  ⟨0x72, "OP_2SWAP", some (.shuffle .swap2)⟩,
  ⟨0x73, "OP_IFDUP", some .dupIfTrue⟩,
  ⟨0x74, "OP_DEPTH", some .depth⟩,
  ⟨0x75, "OP_DROP", some (.shuffle .drop)⟩,
  ⟨0x76, "OP_DUP", some (.shuffle .dup)⟩,
  ⟨0x77, "OP_NIP", some (.shuffle .nip)⟩,
  ⟨0x78, "OP_OVER", some (.shuffle .copyBelow)⟩,
  ⟨0x79, "OP_PICK", some .pick⟩,
  ⟨0x7a, "OP_ROLL", some .roll⟩,
  ⟨0x7b, "OP_ROT", some (.shuffle .rot)⟩,
  ⟨0x7c, "OP_SWAP", some (.shuffle .swap)⟩,
  ⟨0x7d, "OP_TUCK", some (.shuffle .tuck)⟩,
  ⟨0x7e, "OP_CAT", none⟩,
  ⟨0x7f, "OP_SUBSTR", none⟩,
  ⟨0x80, "OP_LEFT", none⟩,
  ⟨0x81, "OP_RIGHT", none⟩,
  ⟨0x82, "OP_SIZE", some .size⟩,
  ⟨0x83, "OP_INVERT", none⟩,
  ⟨0x84, "OP_AND", none⟩,
  ⟨0x85, "OP_OR", none⟩,
  ⟨0x86, "OP_XOR", none⟩,
  ⟨0x87, "OP_EQUAL", some .equal⟩,
  ⟨0x88, "OP_EQUALVERIFY", some (.verified .equal .equalVerify)⟩,
  ⟨0x89, "OP_RESERVED1", none⟩,
  ⟨0x8a, "OP_RESERVED2", none⟩,
  ⟨0x8b, "OP_1ADD", some (.unary .increment)⟩,
  ⟨0x8c, "OP_1SUB", some (.unary .decrement)⟩,
  ⟨0x8d, "OP_2MUL", none⟩,
  ⟨0x8e, "OP_2DIV", none⟩,
  ⟨0x8f, "OP_NEGATE", some (.unary .negate)⟩,
  ⟨0x90, "OP_ABS", some (.unary .absolute)⟩,
  ⟨0x91, "OP_NOT", some (.unary .isZero)⟩,
  ⟨0x92, "OP_0NOTEQUAL", some (.unary .isNonzero)⟩,
  ⟨0x93, "OP_ADD", some (.binary .add)⟩,
  ⟨0x94, "OP_SUB", some (.binary .sub)⟩,
  ⟨0x95, "OP_MUL", none⟩,
  ⟨0x96, "OP_DIV", none⟩,
  ⟨0x97, "OP_MOD", none⟩,
  ⟨0x98, "OP_LSHIFT", none⟩,
  ⟨0x99, "OP_RSHIFT", none⟩,
  ⟨0x9a, "OP_BOOLAND", some (.binary .and)⟩,
  ⟨0x9b, "OP_BOOLOR", some (.binary .or)⟩,
  ⟨0x9c, "OP_NUMEQUAL", some (.binary .equal)⟩,
  ⟨0x9d, "OP_NUMEQUALVERIFY", some (.verified (.binary .equal) .numEqualVerify)⟩,
  ⟨0x9e, "OP_NUMNOTEQUAL", some (.binary .notEqual)⟩,
  ⟨0x9f, "OP_LESSTHAN", some (.binary .less)⟩,
  ⟨0xa0, "OP_GREATERTHAN", some (.binary .greater)⟩,
  ⟨0xa1, "OP_LESSTHANOREQUAL", some (.binary .lessEqual)⟩,
  ⟨0xa2, "OP_GREATERTHANOREQUAL", some (.binary .greaterEqual)⟩,
  ⟨0xa3, "OP_MIN", some (.binary .min)⟩,
  ⟨0xa4, "OP_MAX", some (.binary .max)⟩,
  ⟨0xa5, "OP_WITHIN", some .within⟩,
  ⟨0xa6, "OP_RIPEMD160", some (.digest .ripemd160)⟩,
  ⟨0xa7, "OP_SHA1", some (.digest .sha1)⟩,
  ⟨0xa8, "OP_SHA256", some (.digest .sha256)⟩,
  ⟨0xa9, "OP_HASH160", some (.digest .hash160)⟩,
  ⟨0xaa, "OP_HASH256", some (.digest .hash256)⟩,
  ⟨0xab, "OP_CODESEPARATOR", none⟩,
  ⟨0xac, "OP_CHECKSIG", some .checkSig⟩,
  ⟨0xad, "OP_CHECKSIGVERIFY", some (.verified .checkSig .checkSigVerify)⟩,
  ⟨0xae, "OP_CHECKMULTISIG", some .checkMultisig⟩,
  ⟨0xaf, "OP_CHECKMULTISIGVERIFY", some (.verified .checkMultisig .checkMultisigVerify)⟩,
  ⟨0xb0, "OP_NOP1", some .nop⟩,
  ⟨0xb1, "OP_CHECKLOCKTIMEVERIFY", some .checkLocktime⟩,
  ⟨0xb2, "OP_CHECKSEQUENCEVERIFY", some .checkSequence⟩,
  ⟨0xb3, "OP_NOP4", some .nop⟩,
  ⟨0xb4, "OP_NOP5", some .nop⟩,
  ⟨0xb5, "OP_NOP6", some .nop⟩,
  ⟨0xb6, "OP_NOP7", some .nop⟩,
  ⟨0xb7, "OP_NOP8", some .nop⟩,
  ⟨0xb8, "OP_NOP9", some .nop⟩,
  ⟨0xb9, "OP_NOP10", some .nop⟩]

/-- The entry of a byte. -/
def lookup? (code : UInt8) : Option Entry := table.find? fun entry => entry.code == code

/-- The name of a byte. Model of `op_name`. -/
def name? (code : UInt8) : Option String := (lookup? code).map (·.name)

/-- The operation of a byte. Model of the choice of a branch in `execute`. -/
def operation? (code : UInt8) : Option Operation := (lookup? code).bind (·.operation)

/-- The number from 1 to 16 that a byte pushes. Model of `small_int_value`. -/
def smallInt? (code : UInt8) : Option Nat :=
  if 0x51 ≤ code ∧ code ≤ 0x60 then some (code.toNat - 0x50) else none

/-- The header of a push with a one-byte length. Model of `OP_PUSHDATA1`. -/
def pushData1 : UInt8 := 0x4c

/-- The header of a push with a two-byte length. Model of `OP_PUSHDATA2`. -/
def pushData2 : UInt8 := 0x4d

/-- Starts a conditional on a true element. Model of `OP_IF`. -/
def ifTrue : UInt8 := 0x63

/-- Starts a conditional on a false element. Model of `OP_NOTIF`. -/
def ifFalse : UInt8 := 0x64

/-- Starts the other branch of a conditional. Model of `OP_ELSE`. -/
def otherwise : UInt8 := 0x67

/-- Ends a conditional. Model of `OP_ENDIF`. -/
def endIf : UInt8 := 0x68

/-- Copies the top. Model of `OP_DUP`. -/
def dup : UInt8 := 0x76

/-- Compares two elements. Model of `OP_EQUAL`. -/
def equal : UInt8 := 0x87

/-- Compares two elements, which must be equal. Model of `OP_EQUALVERIFY`. -/
def equalVerify : UInt8 := 0x88

/-- Replaces the top by its key or script hash. Model of `OP_HASH160`. -/
def hash160 : UInt8 := 0xa9

/-- Checks a signature. Model of `OP_CHECKSIG`. -/
def checkSig : UInt8 := 0xac

end CoinSpend.Opcode
