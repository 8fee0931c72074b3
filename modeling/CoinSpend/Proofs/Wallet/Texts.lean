import CoinSpend.Proofs.Ecdsa.SignVerify
import CoinSpend.Proofs.Text.Base58Check
import CoinSpend.Wallet.Address
import CoinSpend.Wallet.KeyText
import CoinSpend.Proofs.Wire.Reads
import Mathlib

/-!
# The texts of keys and addresses

A private key and an address are each a payload in checked base 58: a version byte, and bytes whose
number is fixed by it. What a text is read as is decided by its payload alone, and exactly the
payloads that are written are taken, so each key and each address has one text. The payloads of keys
are longer than those of addresses, so no text is both.

Results:
* `KeyText.ofPayload_eq_ok_iff`, `Address.ofPayload_eq_ok_iff`: a payload is read as what is written
  as it.
* `KeyText.decode_eq_ok_iff`, `Address.decode_eq_ok_iff`: the same of texts.
* `keyText_and_address_exact`: the texts of keys and addresses, and that they differ.
-/

namespace CoinSpend

/-! ## Secrets -/

namespace PrivateKey

/-- A key is known by its secret. -/
theorem eq_of_secret_eq {key other : PrivateKey} (h : key.secret = other.secret) : key = other := by
  obtain ⟨secret, hpos, hlt, point, hpoint⟩ := key
  obtain ⟨secret', hpos', hlt', point', hpoint'⟩ := other
  subst h
  cases hpoint.symm.trans hpoint'
  rfl

theorem ofSecret_eq_ok_iff {secret : ℕ} {key : PrivateKey} :
    ofSecret secret = .ok key ↔ key.secret = secret := by
  constructor
  · intro h
    unfold ofSecret at h
    split at h
    · split at h
      · cases h
        rfl
      · cases h
    · cases h
  · rintro rfl
    obtain ⟨key', hkey', hsecret⟩ := exists_ofSecret key.secret_pos key.secret_lt
    rw [hkey', eq_of_secret_eq hsecret]

theorem ofSecret_secret (key : PrivateKey) : ofSecret key.secret = .ok key :=
  ofSecret_eq_ok_iff.mpr rfl

/-- A secret fits into 32 bytes. -/
theorem secret_lt_pow (key : PrivateKey) : key.secret < 256 ^ 32 :=
  key.secret_lt.trans (by decide)

theorem toNatBE_secret (key : PrivateKey) :
    Bytes.toNatBE (Bytes.ofNatBE 32 key.secret) = key.secret := by
  rw [Bytes.toNatBE_ofNatBE, Nat.mod_eq_of_lt key.secret_lt_pow]

end PrivateKey

/-! ## Keys -/

namespace KeyText

/-- The mark of the compressed form, or nothing. -/
def mark (compressed : Bool) : Bytes := if compressed then [compressedMark] else []

/-- The bytes that the text of a key writes. -/
def payload (text : KeyText) : Bytes :=
  version text.testnet :: Bytes.ofNatBE 32 text.key.secret ++ mark text.compressed

/-- The key that a payload stands for. -/
def ofPayload : Bytes → Except Error KeyText
  | [] => .error .emptyKeyPayload
  | first :: body => do
    let testnet ← network first
    let compressed ← compression body
    let key ← PrivateKey.ofSecret (Bytes.toNatBE (body.take 32))
    return ⟨key, compressed, testnet⟩

theorem encode_eq (text : KeyText) : text.encode = Base58Check.encode text.payload := rfl

theorem decode_eq (text : String) : decode text = Base58Check.decode text >>= ofPayload := rfl

theorem network_eq_ok_iff {first : UInt8} {testnet : Bool} :
    network first = .ok testnet ↔ first = version testnet := by
  unfold network
  constructor
  · intro h
    split at h
    · next hmain =>
      cases h
      exact hmain
    · split at h
      · next htest =>
        cases h
        exact htest
      · cases h
  · rintro rfl
    cases testnet <;> rfl

theorem compression_eq_ok_iff {body : Bytes} {compressed : Bool} :
    compression body = .ok compressed ↔
      ∃ secret : Bytes, secret.length = 32 ∧ body = secret ++ mark compressed := by
  unfold compression
  constructor
  · intro h
    split at h
    · next hlength =>
      cases h
      exact ⟨body, hlength, (List.append_nil body).symm⟩
    · split at h
      · next hmarked =>
        cases h
        obtain ⟨secret, rfl⟩ := List.getLast?_eq_some_iff.mp hmarked.2
        have hlength := hmarked.1
        rw [List.length_append, List.length_singleton] at hlength
        exact ⟨secret, Nat.succ_injective hlength, rfl⟩
      · cases h
  · rintro ⟨secret, hlength, rfl⟩
    cases compressed with
    | false =>
      have hbody : (secret ++ mark false).length = 32 := by simpa [mark] using hlength
      rw [if_pos hbody]
    | true =>
      have hbody : (secret ++ mark true).length = 33 := by simp [mark, hlength]
      have hlast : (secret ++ mark true).getLast? = some compressedMark := by simp [mark]
      rw [if_neg (by omega), if_pos ⟨hbody, hlast⟩]

/-- A payload is read as the key that is written as it. -/
theorem ofPayload_eq_ok_iff {bytes : Bytes} {text : KeyText} :
    ofPayload bytes = .ok text ↔ text.payload = bytes := by
  constructor
  · intro h
    cases bytes with
    | nil => cases h
    | cons first body =>
      obtain ⟨testnet, hnetwork, h⟩ := bind_eq_ok_iff.mp h
      obtain ⟨compressed, hcompression, h⟩ := bind_eq_ok_iff.mp h
      obtain ⟨key, hkey, h⟩ := bind_eq_ok_iff.mp h
      cases h
      obtain ⟨secret, hlength, rfl⟩ := compression_eq_ok_iff.mp hcompression
      have hsecret : Bytes.ofNatBE 32 key.secret = secret := by
        rw [PrivateKey.ofSecret_eq_ok_iff.mp hkey, List.take_left' hlength, ← hlength]
        exact Bytes.ofNatBE_toNatBE secret
      rw [payload, network_eq_ok_iff.mp hnetwork]
      dsimp only
      rw [hsecret, List.cons_append]
  · rintro rfl
    have hlength := Bytes.length_ofNatBE 32 text.key.secret
    have htake : (Bytes.ofNatBE 32 text.key.secret ++ mark text.compressed).take 32 =
        Bytes.ofNatBE 32 text.key.secret := List.take_left' hlength
    rw [payload, List.cons_append, ofPayload, network_eq_ok_iff.mpr rfl, ok_bind,
      compression_eq_ok_iff.mpr ⟨_, hlength, rfl⟩, ok_bind, htake, text.key.toNatBE_secret,
      text.key.ofSecret_secret]
    rfl

theorem decode_eq_ok_iff {text : String} {key : KeyText} :
    decode text = .ok key ↔ key.encode = text := by
  rw [decode_eq, encode_eq]
  exact Base58Check.decode_bind_eq_ok_iff ofPayload_eq_ok_iff

theorem length_payload (text : KeyText) : 33 ≤ text.payload.length := by
  simp [payload]

end KeyText

/-! ## Addresses -/

namespace Address

/-- The bytes that the text of an address writes. -/
def payload (address : Address) : Bytes :=
  version address.kind address.testnet :: address.hash.val

/-- The address that a payload stands for. -/
def ofPayload : Bytes → Except Error Address
  | [] => .error (.addressLength 0)
  | first :: hash =>
    if h : hash.length = 20 then
      match kindOfVersion? first with
      | none => .error (.addressVersion first)
      | some (kind, testnet) => return ⟨kind, testnet, hash, h⟩
    else .error (.addressLength (hash.length + 1))

theorem encode_eq (address : Address) : address.encode = Base58Check.encode address.payload := rfl

theorem decode_eq (text : String) : decode text = Base58Check.decode text >>= ofPayload := rfl

theorem kindOfVersion?_eq_some_iff {first : UInt8} {kind : AddressKind} {testnet : Bool} :
    kindOfVersion? first = some (kind, testnet) ↔ first = version kind testnet := by
  constructor
  · intro h
    have hversion := List.find?_some h
    exact (beq_iff_eq.mp hversion).symm
  · rintro rfl
    exact kindOfVersion?_version kind testnet

/-- A payload is read as the address that is written as it. -/
theorem ofPayload_eq_ok_iff {bytes : Bytes} {address : Address} :
    ofPayload bytes = .ok address ↔ address.payload = bytes := by
  constructor
  · intro h
    cases bytes with
    | nil => cases h
    | cons first hash =>
      rw [ofPayload] at h
      split at h
      · split at h
        · cases h
        · next kind testnet hkind =>
          cases h
          rw [kindOfVersion?_eq_some_iff.mp hkind]
          rfl
      · cases h
  · rintro rfl
    unfold payload ofPayload
    dsimp only
    rw [dif_pos address.hash.property, kindOfVersion?_eq_some_iff.mpr rfl]
    rfl

theorem decode_eq_ok_iff {text : String} {address : Address} :
    decode text = .ok address ↔ address.encode = text := by
  rw [decode_eq, encode_eq]
  exact Base58Check.decode_bind_eq_ok_iff ofPayload_eq_ok_iff

theorem length_payload (address : Address) : address.payload.length = 21 := by
  rw [payload, List.length_cons, address.hash.property]

end Address

/-- Every key can be written, its secret in 32 bytes, and every address. What is written is read
back, with the same key, form of the public key, kind, network and hash, and a text is read only as
what is written as it. The script that pays to an address pays to its hash. No text is both a key
and an address. -/
theorem keyText_and_address_exact :
    (∀ key compressed testnet,
      Wire.writeBE 32 key.secret = .ok (FixedBytes.ofNatBE 32 key.secret) ∧
      KeyText.decode (KeyText.encode ⟨key, compressed, testnet⟩) = .ok ⟨key, compressed, testnet⟩) ∧
    (∀ text key, KeyText.decode text = .ok key ↔ key.encode = text) ∧
    (∀ kind testnet hash,
      Address.decode (Address.encode ⟨kind, testnet, hash⟩) = .ok ⟨kind, testnet, hash⟩ ∧
      (Address.lockingScript ⟨kind, testnet, hash⟩).payeeHash? = some hash) ∧
    (∀ text address, Address.decode text = .ok address ↔ address.encode = text) ∧
    ∀ text key address, ¬(KeyText.decode text = .ok key ∧ Address.decode text = .ok address) := by
  refine ⟨fun key compressed testnet => ⟨?_, KeyText.decode_eq_ok_iff.mpr rfl⟩,
    fun text key => KeyText.decode_eq_ok_iff, fun kind testnet hash => ⟨?_, ?_⟩,
    fun text address => Address.decode_eq_ok_iff, ?_⟩
  · exact Wire.writeBE_eq_ok_iff.mpr ⟨key.secret_lt_pow, rfl⟩
  · exact Address.decode_eq_ok_iff.mpr rfl
  · exact Address.payeeHash?_lockingScript _
  · rintro text key address ⟨hkey, haddress⟩
    rw [KeyText.decode_eq_ok_iff, KeyText.encode_eq, ← Base58Check.decode_eq_ok_iff] at hkey
    rw [Address.decode_eq_ok_iff, Address.encode_eq, ← Base58Check.decode_eq_ok_iff, hkey,
      Except.ok.injEq] at haddress
    have hshort := Address.length_payload address
    have hlong := KeyText.length_payload key
    rw [haddress] at hlong
    omega

end CoinSpend
