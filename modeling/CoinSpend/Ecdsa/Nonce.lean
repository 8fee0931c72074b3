import CoinSpend.Curve.Group
import CoinSpend.Hash.Digest
import CoinSpend.Wire.Reader

/-!
# Signing nonces

The deterministic nonces of RFC 6979 with HMAC-SHA256: a state seeded with the secret and the hash
to be signed yields an endless row of candidates, and the nonces are the candidates between 1 and
the group order. A search among candidates is given a bound, since nothing but chance ends it.

* `usable_of_next?`: a nonce lies in the range.
-/

namespace CoinSpend.Nonce

/-- The key and the value of the generator, before a candidate is drawn. Model of `k` and `v` in
`NonceGenerator`, mixed ahead. -/
structure State where
  key : FixedBytes 32
  value : FixedBytes 32
deriving DecidableEq

namespace State

/-- Mixes `message` into the key, and the key into the value. -/
def update (s : State) (message : List Bytes) : State :=
  let key := Hash.hmacSha256 s.key.val (s.value.val :: message)
  ⟨key, Hash.hmacSha256 key.val [s.value.val]⟩

/-- The state seeded with a secret and a hash. Model of what `NonceGenerator.new` mixes. -/
def seed (secret hash : FixedBytes 32) : State :=
  let blank : State := ⟨⟨List.replicate 32 0, by simp⟩, ⟨List.replicate 32 1, by simp⟩⟩
  (blank.update [[0x00], secret.val, hash.val]).update [[0x01], secret.val, hash.val]

/-- The next candidate, and the state for the one after it. Model of one pass of the loop of
`NonceGenerator.next_nonce`. -/
def draw (s : State) : Nat × State :=
  let value := Hash.hmacSha256 s.key.val [s.value.val]
  (Bytes.toNatBE value.val, update ⟨s.key, value⟩ [[0x00]])

end State

/-- Whether a candidate may be a nonce. Model of the test that ends the loop of
`NonceGenerator.next_nonce`. -/
def usable (candidate : Nat) : Bool := 0 < candidate && candidate < Secp256k1.n

/-- How many candidates a search looks at. Each fails with a chance below `2 ^ -127`. -/
def searchBound : Nat := 256

/-- The first usable one among the next `bound` candidates, and the state after it. Model of the
loop of `NonceGenerator.next_nonce`. -/
def firstUsable? : Nat → State → Option (Nat × State)
  | 0, _ => none
  | bound + 1, s =>
    let (candidate, next) := s.draw
    if usable candidate then some (candidate, next) else firstUsable? bound next

/-- The next nonce, and the state after it. Model of `NonceGenerator.next_nonce`. -/
def next? (s : State) : Option (Nat × State) := firstUsable? searchBound s

/-- The next `count` nonces. -/
def take : Nat → State → Except Error (List Nat)
  | 0, _ => .ok []
  | count + 1, s =>
    match next? s with
    | none => .error .nonceSearchExhausted
    | some (nonce, s) => (take count s).map (nonce :: ·)

/-- The state for signing the hash `z` with a secret. A hash above the group order is reduced by it
once. Model of `NonceGenerator.new`. -/
def start (secret z : Nat) : Except Error State := do
  let hash ← Wire.writeBE 32 (if Secp256k1.n < z then z - Secp256k1.n else z)
  return State.seed (← Wire.writeBE 32 secret) hash

theorem usable_of_firstUsable? {bound nonce : Nat} {s t : State}
    (h : firstUsable? bound s = some (nonce, t)) : usable nonce := by
  induction bound generalizing s with
  | zero => simp [firstUsable?] at h
  | succ bound ih =>
    unfold firstUsable? at h
    split at h
    next candidate state _ =>
      split at h
      · next hu =>
        simp only [Option.some.injEq, Prod.mk.injEq] at h
        exact h.1 ▸ hu
      · exact ih h

theorem usable_of_next? {nonce : Nat} {s t : State} (h : next? s = some (nonce, t)) :
    usable nonce := usable_of_firstUsable? h

end CoinSpend.Nonce
