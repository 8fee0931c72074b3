import CoinSpend.Curve.Point
import CoinSpend.Text.Base58

/-!
# Errors

Every refusal outside script execution is a value of `Error`: its constructor is the cause, with the
data that the wording needs. `Error.kind` sorts the causes and `Error.message` words them.
-/

namespace CoinSpend

/-- The binary operations on field elements. -/
inductive FieldOperation where
  | add
  | subtract
  | multiply
  | divide
deriving DecidableEq, Repr

/-- The verb of an operation. -/
def FieldOperation.verb : FieldOperation → String
  | add => "add"
  | subtract => "subtract"
  | multiply => "multiply"
  | divide => "divide"

/-- The sorts of errors. Model of the constructors of `BtcError`. -/
inductive ErrorKind where
  /-- A value outside its algebraic domain. -/
  | validation
  /-- Malformed bytes or text. -/
  | format
  /-- A checksum that does not match. -/
  | checksum
  /-- An earlier transaction that could not be delivered. -/
  | fetch
  /-- A file that could not be read or written. -/
  | file
  /-- A store file with malformed content. -/
  | serialization
  /-- Unusable settings. -/
  | settings
deriving DecidableEq, Repr

/-- The heading of an error's wording. -/
def ErrorKind.heading : ErrorKind → String
  | validation => "Validation error"
  | format => "Format error"
  | checksum => "Checksum error"
  | fetch => "Fetch error"
  | file => "I/O error"
  | serialization => "Serialization error"
  | settings => "Configuration error"

/-- The causes of errors. Model of `BtcError`, with the values that a wording tells. -/
inductive Error where
  /-- A field's modulus must exceed 1. -/
  | modulusTooSmall (modulus : Nat)
  /-- A residue must be below its modulus. -/
  | residueTooLarge (num modulus : Nat)
  /-- The operands of an operation have different moduli. -/
  | differentFields (operation : FieldOperation) (left right : Nat)
  /-- Zero has no inverse. -/
  | zeroInverse
  /-- The coordinates do not satisfy the curve's equation. -/
  | notOnCurve (x y : Nat)
  /-- Points of different curves cannot be added. -/
  | differentCurves (left right : Point)
  /-- No point of the curve has this x coordinate. -/
  | noPointAt (x : Nat)
  /-- A secret must lie between 1 and the group order. -/
  | secretOutOfRange
  /-- The components of a signature must lie between 1 and the group order. -/
  | signatureOutOfRange (r s : Nat)
  /-- The search for a nonce ended at its bound. -/
  | nonceSearchExhausted
  /-- A number has more digits than the bytes it is to be written in. -/
  | numberTooWide (needed available : Nat)
  /-- A number does not fit into this many little-endian bytes. -/
  | valueTooWide (value : Nat) (available : Nat)
  /-- A transaction has no input with this index. -/
  | noSuchInput (index count : Nat)
  /-- The data end before `wanted` bytes. -/
  | endOfData (wanted place left : Nat)
  /-- More bytes than a 64-bit number has. -/
  | tooManyBytes (count : Nat)
  /-- A text is no hexadecimal text. -/
  | badHex (cause : Hex.DecodeError)
  /-- A text is no base-58 text. -/
  | badBase58 (cause : Base58.DecodeError)
  /-- A checked text is shorter than its checksum. -/
  | checkedTextTooShort (length : Nat)
  /-- A checksum does not match what it covers. -/
  | checksumMismatch (expected actual : Bytes)
  /-- A signature does not start with the sequence tag. -/
  | badSequenceTag (tag : UInt8)
  /-- A signature's length byte does not count the bytes after it. -/
  | badSequenceLength (declared left : Nat)
  /-- A component of a signature does not start with the integer tag. -/
  | badIntegerTag (tag : UInt8)
  /-- A component of a signature has no bytes. -/
  | emptyInteger
  /-- Bytes follow the two components of a signature. -/
  | trailingSignatureBytes
  /-- A public key has no bytes. -/
  | emptyPublicKey
  /-- The point at infinity has no public key encoding. -/
  | infinityPublicKey
  /-- The first byte of a public key does not fit its length. -/
  | publicKeyLength (form : UInt8) (length : Nat)
  /-- The first byte of a public key names no form. -/
  | publicKeyForm (form : UInt8)
  /-- A key text starts with an unknown version byte. -/
  | keyVersion (version : UInt8)
  /-- A key text has no payload. -/
  | emptyKeyPayload
  /-- A key text has a payload of the wrong length. -/
  | keyLength (length : Nat)
  /-- An address has a payload of the wrong length. -/
  | addressLength (length : Nat)
  /-- An address starts with an unknown version byte. -/
  | addressVersion (version : UInt8)
  /-- The data of a push run past the end of the script. -/
  | pushPastEnd (length : Nat)
  /-- An opcode would be read back as the header of a push. -/
  | pushHeaderOpcode (code : UInt8)
  /-- A push is longer than a script element may be. -/
  | pushTooLong (length : Nat)
  /-- Bytes follow a transaction. -/
  | trailingTransactionBytes (count : Nat)
  /-- A transaction has no output with this index. -/
  | noSuchOutput (id : FixedBytes 32) (index : Nat)
  /-- The store holds no transaction with this id. -/
  | notInStore (id : String)
  /-- The store holds a transaction under an id that is not its own. -/
  | wrongId (actual wanted : String)
  /-- A store file cannot be read. -/
  | unreadableFile
  /-- A store file cannot be written. -/
  | unwritableFile
  /-- The content of a store file is no object of texts. -/
  | malformedStoreFile
  /-- A settings file cannot be read. -/
  | unreadableSettings
  /-- The content of a settings file is malformed. -/
  | malformedSettings
  /-- The override of the network flag is no boolean. -/
  | badFlagOverride (value : String)
  /-- The override of the store's path is empty. -/
  | emptyPathOverride
deriving DecidableEq, Repr

namespace Error

/-- The sort of a cause. -/
def kind : Error → ErrorKind
  | modulusTooSmall .. | residueTooLarge .. | differentFields .. | zeroInverse | notOnCurve ..
  | differentCurves .. | noPointAt .. | secretOutOfRange | signatureOutOfRange ..
  | nonceSearchExhausted | numberTooWide .. | valueTooWide .. | noSuchInput .. => .validation
  | endOfData .. | tooManyBytes .. | badHex .. | badBase58 .. | checkedTextTooShort ..
  | badSequenceTag .. | badSequenceLength .. | badIntegerTag .. | emptyInteger
  | trailingSignatureBytes | emptyPublicKey | infinityPublicKey | publicKeyLength ..
  | publicKeyForm .. | keyVersion .. | emptyKeyPayload | keyLength .. | addressLength ..
  | addressVersion .. | pushPastEnd .. | pushHeaderOpcode .. | pushTooLong ..
  | trailingTransactionBytes .. => .format
  | checksumMismatch .. => .checksum
  | noSuchOutput .. | notInStore .. | wrongId .. => .fetch
  | unreadableFile | unwritableFile => .file
  | malformedStoreFile => .serialization
  | unreadableSettings | malformedSettings | badFlagOverride .. | emptyPathOverride => .settings

/-- The wording of a cause, without its heading. -/
def detail : Error → String
  | modulusTooSmall modulus => s!"Field modulus {modulus} must be greater than 1"
  | residueTooLarge num modulus => s!"Num {num} not in field range 0 to {modulus - 1}"
  | differentFields operation left right =>
    s!"Cannot {operation.verb} elements of different fields ({left} and {right})"
  | zeroInverse => "Zero has no inverse in a prime field"
  | notOnCurve x y => s!"({x}, {y}) is not on the curve"
  | differentCurves left right =>
    s!"Points {left.render} and {right.render} are not on the same curve"
  | noPointAt x => s!"No point on secp256k1 has x = {x}"
  | secretOutOfRange => "Private key secret must be in [1, n-1]"
  | signatureOutOfRange r s =>
    s!"Signature components must be in [1, n-1]: r={Hex.ofNat r}, s={Hex.ofNat s}"
  | nonceSearchExhausted => "No usable nonce within the search bound"
  | numberTooWide needed available => s!"Integer needs {needed} bytes, only {available} available"
  | valueTooWide value available => s!"{value} does not fit in {available} bytes"
  | noSuchInput index count => s!"Input index {index} out of range ({count} inputs)"
  | endOfData wanted place left =>
    s!"Unexpected end of data: wanted {wanted} bytes at offset {place}, {left} left"
  | tooManyBytes count => s!"{count} bytes do not fit in a u64"
  | badHex cause => s!"Invalid hex: {cause.message}"
  | badBase58 cause => s!"Invalid base58 encoding: {cause.message}"
  | checkedTextTooShort length => s!"Base58Check string too short: {length} bytes"
  | checksumMismatch expected actual =>
    s!"expected {Hex.encode expected}, got {Hex.encode actual}"
  | badSequenceTag tag =>
    s!"Bad signature: expected tag 0x30, got {Hex.ofByte tag}"
  | badSequenceLength declared left =>
    s!"Bad signature length: header says {declared}, {left} bytes follow"
  | badIntegerTag tag => s!"Bad signature: expected integer marker, got {Hex.ofByte tag}"
  | emptyInteger => "Empty DER integer"
  | trailingSignatureBytes => "Trailing bytes after DER signature"
  | emptyPublicKey => "Empty SEC public key"
  | infinityPublicKey => "The point at infinity has no SEC encoding"
  | publicKeyLength form length =>
    s!"SEC key with prefix {Hex.ofByte form} has invalid length {length}"
  | publicKeyForm form => s!"Unknown SEC prefix {Hex.ofByte form}"
  | keyVersion version => s!"Unknown WIF version byte {Hex.ofByte version}"
  | emptyKeyPayload => "Empty WIF payload"
  | keyLength length => s!"Invalid WIF payload length {length}"
  | addressLength length => s!"Address payload must be 21 bytes, got {length}"
  | addressVersion version => s!"Unknown address version byte {Hex.ofByte version}"
  | pushPastEnd length => s!"Parsing script failed: push of {length} bytes runs past the end"
  | pushHeaderOpcode code => s!"Opcode {Hex.ofByte code} is a push header, use Cmd::Push"
  | pushTooLong length => s!"Push of {length} bytes exceeds the 520 byte limit"
  | trailingTransactionBytes count => s!"{count} trailing bytes after transaction"
  | noSuchOutput id index => s!"Transaction {Hex.encode id.val} has no output #{index}"
  | notInStore id => s!"Transaction {id} not in store"
  | wrongId actual wanted => s!"not the same id: {actual} vs {wanted}"
  | unreadableFile => "The store file cannot be read"
  | unwritableFile => "The store file cannot be written"
  | malformedStoreFile => "The store file is no object of texts"
  | unreadableSettings => "The settings file cannot be read"
  | malformedSettings => "The settings file is malformed"
  | badFlagOverride value => s!"BTC_TESTNET must be a boolean, got {Quoted.ofText value}"
  | emptyPathOverride => "BTC_TX_CACHE is empty"

/-- The full wording of an error. Model of the display of `BtcError`. -/
def message (e : Error) : String := e.kind.heading ++ ": " ++ e.detail

end Error

end CoinSpend
