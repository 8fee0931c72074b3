import CoinSpend.Curve.Group
import CoinSpend.Script.Instruction

/-!
# Checked text and addresses

A payload is written in base 58 with the first four bytes of its double SHA-256 behind it. An
address is the text of a version byte, which tells what is paid and on which network, and of the
hash of a public key or a script.

* `Address.kindOfVersion?_version`: the version bytes are told apart.
-/

namespace CoinSpend

/-! ## Base 58 with a checksum -/

namespace Base58Check

/-- The number of bytes in a checksum. Model of `CHECKSUM_LEN`. -/
def checksumLength : Nat := 4

/-- The checksum of a payload. Model of `checksum`. -/
def checksum (payload : Bytes) : Bytes := (Hash.hash256 payload).val.take checksumLength

/-- The text of a payload. Model of `encode_base58_checksum`. -/
def encode (payload : Bytes) : String := Base58.encode (payload ++ checksum payload)

/-- The payload of a text. Model of `decode_base58_check`. -/
def decode (text : String) : Except Error Bytes := do
  let bytes ← (Base58.decode text).mapError .badBase58
  if bytes.length < checksumLength then .error (.checkedTextTooShort bytes.length)
  else
    let payload := bytes.take (bytes.length - checksumLength)
    let actual := bytes.drop (bytes.length - checksumLength)
    if checksum payload = actual then .ok payload
    else .error (.checksumMismatch (checksum payload) actual)

end Base58Check

/-! ## Addresses -/

/-- What an address pays to. Model of `AddressKind`. -/
inductive AddressKind where
  | publicKey
  | script
deriving DecidableEq, Repr

/-- What an address says. Model of `DecodedAddress`. -/
structure Address where
  kind : AddressKind
  testnet : Bool
  hash : FixedBytes 20
deriving DecidableEq

namespace Address

/-- The version byte of a kind of address on a network. Model of `P2PKH_MAINNET_VERSION` and of the
three constants like it. -/
def version : AddressKind → Bool → UInt8
  | .publicKey, false => 0x00
  | .publicKey, true => 0x6f
  | .script, false => 0x05
  | .script, true => 0xc4

/-- The kind and the network of a version byte. -/
def kindOfVersion? (first : UInt8) : Option (AddressKind × Bool) :=
  [(.publicKey, false), (.publicKey, true), (.script, false), (.script, true)].find?
    fun (kind, testnet) => version kind testnet == first

/-- The text of an address. Model of `p2pkh_address` and `p2sh_address`. -/
def encode (address : Address) : String :=
  Base58Check.encode (version address.kind address.testnet :: address.hash.val)

/-- The address of a public key in the compressed or in the full form. Model of `point_address`. -/
def ofPoint (point : Point) (compressed testnet : Bool) : Except Error Address := do
  return ⟨.publicKey, testnet, ← point.hash160 compressed⟩

/-- Reads an address. Model of `decode_address`. -/
def decode (text : String) : Except Error Address := do
  match ← Base58Check.decode text with
  | [] => .error (.addressLength 0)
  | first :: hash =>
    if h : hash.length = 20 then
      match kindOfVersion? first with
      | none => .error (.addressVersion first)
      | some (kind, testnet) => return ⟨kind, testnet, hash, h⟩
    else .error (.addressLength (hash.length + 1))

/-- Whether a text is an address. Model of `validate_address`. -/
def isValid (text : String) : Bool := (decode text).toBool

/-- The locking script that pays to an address. Model of `DecodedAddress.script_pubkey`. -/
def lockingScript (address : Address) : Script :=
  match address.kind with
  | .publicKey => Script.payToKeyHash address.hash
  | .script => Script.payToScriptHash address.hash

theorem kindOfVersion?_version (kind : AddressKind) (testnet : Bool) :
    kindOfVersion? (version kind testnet) = some (kind, testnet) := by
  cases kind <;> cases testnet <;> decide

theorem payeeHash?_lockingScript (address : Address) :
    address.lockingScript.payeeHash? = some address.hash := by
  unfold lockingScript Script.payeeHash?
  split
  · rw [Script.keyHash?_eq_some_iff.mpr rfl]
    rfl
  · rw [Script.scriptHash?_eq_some_iff.mpr rfl]
    rfl

end Address

end CoinSpend
