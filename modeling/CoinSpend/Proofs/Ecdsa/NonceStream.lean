import CoinSpend.Proofs.Ecdsa.SignVerify
import Mathlib

/-!
# The row of nonces

RFC 6979 draws one candidate after another and takes the first that lies in the range. A signer that
cannot use that one goes on as if it had been out of range. So the nonces are the candidates in the
range, in their order, and it does not matter which of the others were dismissed for what.

Results:
* `draw_registers`: the state is that of the standard, before every candidate.
* `draws_registers_iff`: the nonces that are drawn are the usable candidates.
* `Generator.draws_iff`, `Generator.take_eq`: mixing the state late, on demand, gives the same
  nonces.
* `seedMessage_inj`: a seed tells the secret and the hash.
* `start_follows_standard`: the nonces for a secret and a hash.
-/

namespace CoinSpend.Nonce

open Secp256k1 (n)

/-! ## The candidates of the standard -/

/-- HMAC-SHA256 of one message under the register `K`. -/
def hmac (K : FixedBytes 32) (message : Bytes) : FixedBytes 32 := Hash.hmacSha256 K.val [message]

/-- What is mixed into `K` in steps d and f, the two of which differ in the tag. -/
def seedMessage (V : FixedBytes 32) (tag : UInt8) (secret hash : ℕ) : Bytes :=
  V.val ++ [tag] ++ Bytes.ofNatBE 32 secret ++ Bytes.ofNatBE 32 hash

/-- The registers `K` and `V` after steps b to g. -/
def seeded (secret hash : ℕ) : State :=
  let V := FixedBytes.replicate 32 0x01
  let K := FixedBytes.replicate 32 0x00
  let K := hmac K (seedMessage V 0x00 secret hash)
  let V := hmac K V.val
  let K := hmac K (seedMessage V 0x01 secret hash)
  let V := hmac K V.val
  ⟨K, V⟩

/-- The registers before the candidate with the given index: step h, with all candidates so far
dismissed. -/
def registers (secret hash : ℕ) : ℕ → State
  | 0 => seeded secret hash
  | index + 1 =>
    let K := (registers secret hash index).key
    let V := hmac K (registers secret hash index).value.val
    let K := hmac K (V.val ++ [0x00])
    let V := hmac K V.val
    ⟨K, V⟩

/-- The candidate with the given index. -/
def candidate (secret hash index : ℕ) : ℕ :=
  Bytes.toNatBE (hmac (registers secret hash index).key (registers secret hash index).value.val).val

/-- The hash in the seed: reduced by the group order once if it is above it. -/
def reduced (z : ℕ) : ℕ := if n < z then z - n else z

variable {secret hash : ℕ}

theorem seed_eq (secret hash : ℕ) :
    State.seed (.ofNatBE 32 secret) (.ofNatBE 32 hash) = registers secret hash 0 := by
  simp only [State.seed, State.update, Hash.hmacSha256_append]
  rfl

/-- A draw yields the candidate of the standard, and leaves the registers for the next one. -/
theorem draw_registers (secret hash index : ℕ) : (registers secret hash index).draw =
    (candidate secret hash index, registers secret hash (index + 1)) := by
  simp only [State.draw, State.update, Hash.hmacSha256_append]
  rfl

/-! ## The nonces that are drawn -/

/-- Searches one after another, each of which ends, yield these nonces. -/
inductive Draws : State → List ℕ → Prop
  | nil (s : State) : Draws s []
  | cons (bound : ℕ) {nonce : ℕ} {s t : State} {nonces : List ℕ}
      (hfirst : firstUsable? bound s = some (nonce, t)) (hrest : Draws t nonces) :
      Draws s (nonce :: nonces)

/-- The usable ones among `count` candidates from the given index on. -/
def usableFrom (secret hash index count : ℕ) : List ℕ :=
  ((List.range' index count).map (candidate secret hash)).filter usable

theorem usableFrom_succ (secret hash index count : ℕ) : usableFrom secret hash index (count + 1) =
    if usable (candidate secret hash index) then
      candidate secret hash index :: usableFrom secret hash (index + 1) count
    else usableFrom secret hash (index + 1) count := by
  rw [usableFrom, List.range'_succ, List.map_cons, List.filter_cons]
  rfl

theorem usableFrom_add (secret hash index count more : ℕ) :
    usableFrom secret hash index (count + more) =
      usableFrom secret hash index count ++ usableFrom secret hash (index + count) more := by
  rw [usableFrom, ← List.range'_append_1, List.map_append, List.filter_append]
  rfl

theorem firstUsable?_of_not_usable {bound : ℕ} {s : State} (h : ¬usable s.draw.1 = true) :
    firstUsable? (bound + 1) s = firstUsable? bound s.draw.2 := by
  rw [firstUsable?]
  generalize s.draw = drawn at h ⊢
  exact if_neg h

/-- A search passes the candidates that are not usable and stops behind the first that is. -/
theorem exists_of_firstUsable?_registers {bound index nonce : ℕ} {t : State}
    (h : firstUsable? bound (registers secret hash index) = some (nonce, t)) :
    ∃ count, usableFrom secret hash index count = [nonce] ∧
      t = registers secret hash (index + count) := by
  induction bound generalizing index with
  | zero => cases h
  | succ bound ih =>
    have hdraw := draw_registers secret hash index
    by_cases husable : usable (candidate secret hash index) = true
    · rw [firstUsable?_succ (hdraw ▸ husable), hdraw, Option.some.injEq, Prod.mk.injEq] at h
      obtain ⟨rfl, rfl⟩ := h
      refine ⟨1, ?_, rfl⟩
      rw [usableFrom_succ, if_pos husable]
      rfl
    · rw [firstUsable?_of_not_usable (hdraw ▸ husable), hdraw] at h
      obtain ⟨count, hcount, rfl⟩ := ih h
      refine ⟨count + 1, ?_, by rw [Nat.add_assoc, Nat.add_comm 1]⟩
      rw [usableFrom_succ, if_neg husable, hcount]

/-- A search may start one candidate earlier if that one is not usable. -/
theorem Draws.of_not_usable {s : State} {nonces : List ℕ} (h : ¬usable s.draw.1 = true)
    (hdraws : Draws s.draw.2 nonces) : Draws s nonces := by
  cases hdraws with
  | nil => exact .nil s
  | cons bound hfirst hrest =>
    refine .cons (bound + 1) ?_ hrest
    rw [firstUsable?_of_not_usable h]
    exact hfirst

/-- However many searches there are, they yield the usable candidates in order. -/
theorem draws_registers_iff {index : ℕ} {nonces : List ℕ} :
    Draws (registers secret hash index) nonces ↔
      ∃ count, usableFrom secret hash index count = nonces := by
  constructor
  · intro h
    -- Every search ends at the registers of a later index.
    generalize hs : registers secret hash index = s at h
    induction h generalizing index with
    | nil s => exact ⟨0, rfl⟩
    | cons bound hfirst hrest ih =>
      subst hs
      obtain ⟨count, hcount, rfl⟩ := exists_of_firstUsable?_registers hfirst
      obtain ⟨more, hmore⟩ := ih rfl
      refine ⟨count + more, ?_⟩
      rw [usableFrom_add, hcount, hmore]
      rfl
  · rintro ⟨count, rfl⟩
    -- A usable candidate is a search of its own; any other one belongs to the search that follows.
    induction count generalizing index with
    | zero => exact .nil _
    | succ count ih =>
      have hdraw := draw_registers secret hash index
      rw [usableFrom_succ]
      by_cases husable : usable (candidate secret hash index) = true
      · rw [if_pos husable]
        refine .cons 1 ?_ ih
        rw [← hdraw]
        exact firstUsable?_succ (hdraw ▸ husable)
      · rw [if_neg husable]
        refine .of_not_usable (hdraw ▸ husable) ?_
        rw [hdraw]
        exact ih

/-- Nonces that are taken within the bounds of their searches are drawn. -/
theorem draws_of_take {count : ℕ} {s : State} {nonces : List ℕ} (h : take count s = .ok nonces) :
    nonces.length = count ∧ Draws s nonces := by
  induction count generalizing s nonces with
  | zero =>
    cases h
    exact ⟨rfl, .nil s⟩
  | succ count ih =>
    unfold take at h
    cases hnext : next? s with
    | none =>
      rw [hnext] at h
      cases h
    | some found =>
      rw [hnext] at h
      obtain ⟨rest, hrest, rfl⟩ := map_eq_ok_iff.mp h
      obtain ⟨hlength, hdraws⟩ := ih hrest
      exact ⟨by rw [List.length_cons, hlength], .cons searchBound hnext hdraws⟩

/-! ## Mixing on demand -/

/-- A generator that mixes its state only when it is asked for another candidate. Model of
`NonceGenerator`. -/
structure Generator where
  state : State
  started : Bool

namespace Generator

/-- The state that the next candidate is drawn from. -/
def ready (g : Generator) : State :=
  if g.started then g.state.update [[0x00]] else g.state

/-- The next candidate, which stays behind as the value of the state. Model of one pass of the loop
of `NonceGenerator.next_nonce`. -/
def draw (g : Generator) : ℕ × Generator :=
  let value := Hash.hmacSha256 g.ready.key.val [g.ready.value.val]
  (Bytes.toNatBE value.val, ⟨⟨g.ready.key, value⟩, true⟩)

/-- The first usable one among the next `bound` candidates. Model of the loop of
`NonceGenerator.next_nonce`. -/
def firstUsable? : ℕ → Generator → Option (ℕ × Generator)
  | 0, _ => none
  | bound + 1, g =>
    let (candidate, next) := g.draw
    if usable candidate then some (candidate, next) else firstUsable? bound next

/-- The next nonce. Model of `NonceGenerator.next_nonce`. -/
def next? (g : Generator) : Option (ℕ × Generator) := g.firstUsable? searchBound

/-- The next `count` nonces. -/
def take : ℕ → Generator → Except Error (List ℕ)
  | 0, _ => .ok []
  | count + 1, g =>
    match g.next? with
    | none => .error .nonceSearchExhausted
    | some (nonce, g) => (take count g).map (nonce :: ·)

theorem draw_ready (g : Generator) : g.ready.draw = (g.draw.1, g.draw.2.ready) := rfl

theorem firstUsable?_ready (bound : ℕ) (g : Generator) :
    Nonce.firstUsable? bound g.ready = (g.firstUsable? bound).map (Prod.map id ready) := by
  induction bound generalizing g with
  | zero => rfl
  | succ bound ih =>
    rw [Nonce.firstUsable?, draw_ready, firstUsable?]
    by_cases husable : usable g.draw.1 = true
    · simp only [if_pos husable]
      rfl
    · simp only [if_neg husable]
      exact ih g.draw.2

theorem take_eq (count : ℕ) (g : Generator) : g.take count = Nonce.take count g.ready := by
  induction count generalizing g with
  | zero => rfl
  | succ count ih =>
    have hnext : Nonce.next? g.ready = g.next?.map (Prod.map id ready) :=
      firstUsable?_ready searchBound g
    unfold take Nonce.take
    rw [hnext]
    cases g.next? with
    | none => rfl
    | some found =>
      obtain ⟨nonce, next⟩ := found
      exact congrArg (Except.map (nonce :: ·)) (ih next)

/-- Searches one after another, each of which ends, yield these nonces. -/
inductive Draws : Generator → List ℕ → Prop
  | nil (g : Generator) : Draws g []
  | cons (bound : ℕ) {nonce : ℕ} {g next : Generator} {nonces : List ℕ}
      (hfirst : g.firstUsable? bound = some (nonce, next)) (hrest : Draws next nonces) :
      Draws g (nonce :: nonces)

/-- Whatever the bounds of the searches, mixing on demand makes no difference. -/
theorem draws_iff {g : Generator} {nonces : List ℕ} :
    Draws g nonces ↔ Nonce.Draws g.ready nonces := by
  constructor
  · intro h
    induction h with
    | nil g => exact .nil g.ready
    | cons bound hfirst hrest ih =>
      refine .cons bound ?_ ih
      rw [firstUsable?_ready, hfirst]
      rfl
  · intro h
    generalize hs : g.ready = s at h
    induction h generalizing g with
    | nil s => exact .nil g
    | cons bound hfirst hrest ih =>
      subst hs
      rw [firstUsable?_ready] at hfirst
      obtain ⟨⟨nonce, next⟩, hfound, hnext⟩ := Option.map_eq_some_iff.mp hfirst
      cases hnext
      exact .cons bound hfound (ih rfl)

end Generator

/-! ## The seed -/

theorem ofNatBE_inj {value other : ℕ} (hvalue : value < 256 ^ 32) (hother : other < 256 ^ 32)
    (h : Bytes.ofNatBE 32 value = Bytes.ofNatBE 32 other) : value = other := by
  have hnumbers := congrArg Bytes.toNatBE h
  rwa [Bytes.toNatBE_ofNatBE, Bytes.toNatBE_ofNatBE, Nat.mod_eq_of_lt hvalue,
    Nat.mod_eq_of_lt hother] at hnumbers

/-- A seed tells the secret and the hash, whatever is in front of them. -/
theorem seedMessage_inj {secret' hash' : ℕ} {V V' : FixedBytes 32} {tag tag' : UInt8}
    (hsecret : secret < 256 ^ 32) (hsecret' : secret' < 256 ^ 32) (hhash : hash < 256 ^ 32)
    (hhash' : hash' < 256 ^ 32)
    (h : seedMessage V tag secret hash = seedMessage V' tag' secret' hash') :
    secret = secret' ∧ hash = hash' := by
  obtain ⟨hfront, hhashes⟩ := List.append_inj' h (by
    rw [Bytes.length_ofNatBE, Bytes.length_ofNatBE])
  obtain ⟨-, hsecrets⟩ := List.append_inj' hfront (by
    rw [Bytes.length_ofNatBE, Bytes.length_ofNatBE])
  exact ⟨ofNatBE_inj hsecret hsecret' hsecrets, ofNatBE_inj hhash hhash' hhashes⟩

theorem reduced_lt {z : ℕ} (hz : z < 256 ^ 32) : reduced z < 256 ^ 32 := by
  unfold reduced
  split <;> omega

theorem reduced_modEq (z : ℕ) : reduced z ≡ z [MOD n] := by
  unfold reduced
  split
  · next h => exact (Nat.modEq_iff_dvd' (Nat.sub_le z n)).mpr ⟨1, by omega⟩
  · rfl

/-- No number of 32 bytes is above the group order twice. -/
theorem reduced_sub {z : ℕ} (h : n < z) (hz : z < 256 ^ 32) : reduced (z - n) = reduced z := by
  have htwice : 256 ^ 32 ≤ 2 * n := by decide
  unfold reduced
  rw [if_pos h, if_neg (by omega)]

theorem start_eq_registers {z : ℕ} (hsecret : secret < 256 ^ 32) (hz : z < 256 ^ 32) :
    start secret z = .ok (registers secret (reduced z) 0) := by
  rw [start_eq hsecret (reduced_lt hz), ← seed_eq]
  rfl

/-! ## The nonces for a secret and a hash -/

theorem usable_eq (T : ℕ) : usable T = decide (1 ≤ T ∧ T ≤ n - 1) := by
  have hn : 0 < n := by decide
  rw [usable, ← Bool.decide_and, decide_eq_decide]
  omega

/-- A secret and a hash of 32 bytes each start the generator of the standard, with the hash reduced
by the group order once if it is above it. The nonces that are drawn, however many, are then the
candidates in the range, each once and in their order. Mixing the state on demand instead of after a
candidate makes no difference to a search, whatever its bound, and so none to the nonces. A hash
above the group order gives the nonces of the reduced one; but what is mixed into the seed for two
hashes is the same only if they are congruent. -/
theorem start_follows_standard {secret z : ℕ} (hsecret : secret < 2 ^ 256) (hz : z < 2 ^ 256) :
    ∃ s, s = registers secret (reduced z) 0 ∧ start secret z = .ok s ∧
      (∀ nonces, Draws s nonces ↔ ∃ count,
        ((List.range count).map (candidate secret (reduced z))).filter
          (fun T => 1 ≤ T ∧ T ≤ n - 1) = nonces) ∧
      (∀ count nonces, take count s = .ok nonces → nonces.length = count ∧ Draws s nonces) ∧
      (∀ bound g, firstUsable? bound (Generator.ready g) =
        (Generator.firstUsable? bound g).map (Prod.map id Generator.ready)) ∧
      (∀ nonces, Generator.Draws ⟨s, false⟩ nonces ↔ Draws s nonces) ∧
      (∀ count, Generator.take count ⟨s, false⟩ = take count s) ∧
      (n < z → start secret (z - n) = .ok s) ∧
      ∀ V V' tag tag' secret' z', secret' < 2 ^ 256 → z' < 2 ^ 256 →
        seedMessage V tag secret (reduced z) = seedMessage V' tag' secret' (reduced z') →
          secret = secret' ∧ reduced z = reduced z' ∧ z ≡ z' [MOD n] := by
  have hpow : 2 ^ 256 = 256 ^ 32 := by decide
  rw [hpow] at *
  refine ⟨_, rfl, start_eq_registers hsecret hz, fun nonces => ?_,
    fun count nonces => draws_of_take, Generator.firstUsable?_ready,
    fun nonces => Generator.draws_iff, fun count => Generator.take_eq count _,
    fun habove => ?_, ?_⟩
  · rw [draws_registers_iff]
    simp only [usableFrom, List.range_eq_range', funext usable_eq]
  · rw [start_eq_registers hsecret ((Nat.sub_le z n).trans_lt hz), reduced_sub habove hz]
  · intro V V' tag tag' secret' z' hsecret' hz' hseed
    obtain ⟨hsecrets, hhashes⟩ :=
      seedMessage_inj hsecret hsecret' (reduced_lt hz) (reduced_lt hz') hseed
    exact ⟨hsecrets, hhashes, (reduced_modEq z).symm.trans (hhashes ▸ reduced_modEq z')⟩

/-- Two nonces for the hash `n + 5`, which are those for the hash 5. -/
theorem draws_above_order : ∃ s, start 12345 (n + 5) = .ok s ∧ start 12345 5 = .ok s ∧
    Generator.Draws ⟨s, false⟩
      [0xa1079cf1830745e8eeb6c0c2355bcb2a50c0e346213fc09fc616ee6ebc05224b,
        0x56095158746af16d40dc48db70c994c24fdc6528a1c2933d149c1880ff993f5c] := by
  obtain ⟨s, -, hstart, hdraws, -, -, hondemand, -, hbelow, -⟩ :=
    start_follows_standard (show 12345 < 2 ^ 256 by decide) (show n + 5 < 2 ^ 256 by decide)
  refine ⟨s, hstart, hbelow (by decide), (hondemand _).mpr ?_⟩
  exact (hdraws _).mpr ⟨2, by decide +kernel⟩

end CoinSpend.Nonce
