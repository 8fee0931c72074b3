import CoinSpend.Ecdsa.PrivateKey
import CoinSpend.Wallet.Address

/-!
# Private keys as text

The import format of wallets (WIF): a version byte for the network, the secret in 32 bytes, and a
byte `0x01` behind it if the public key is to be used in its compressed form.
-/

namespace CoinSpend

/-- A private key with the form of its public key and its network. Model of `DecodedWif`. -/
structure KeyText where
  key : PrivateKey
  compressed : Bool
  testnet : Bool

namespace KeyText

/-- The version byte of a network. Model of `WIF_MAINNET_PREFIX` and `WIF_TESTNET_PREFIX`. -/
def version (testnet : Bool) : UInt8 := if testnet then 0xef else 0x80

/-- The byte that marks the compressed form. Model of `WIF_COMPRESSED_SUFFIX`. -/
def compressedMark : UInt8 := 0x01

/-- The text of a key. Model of `PrivateKey.wif`. -/
def encode (text : KeyText) : String :=
  Base58Check.encode (version text.testnet :: Bytes.ofNatBE 32 text.key.secret
    ++ if text.compressed then [compressedMark] else [])

/-- The network of a version byte. -/
def network (first : UInt8) : Except Error Bool :=
  if first = version false then .ok false
  else if first = version true then .ok true
  else .error (.keyVersion first)

/-- Whether the bytes behind the version byte end in the mark of the compressed form. -/
def compression (body : Bytes) : Except Error Bool :=
  if body.length = 32 then .ok false
  else if body.length = 33 ∧ body.getLast? = some compressedMark then .ok true
  else .error (.keyLength (body.length + 1))

/-- Reads a key. Model of `PrivateKey.from_wif`. -/
def decode (text : String) : Except Error KeyText := do
  match ← Base58Check.decode text with
  | [] => .error .emptyKeyPayload
  | first :: body =>
    let testnet ← network first
    let compressed ← compression body
    let key ← PrivateKey.ofSecret (Bytes.toNatBE (body.take 32))
    return ⟨key, compressed, testnet⟩

end KeyText

end CoinSpend
