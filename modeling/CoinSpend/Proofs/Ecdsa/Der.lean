import CoinSpend.Bytes.Lemmas
import CoinSpend.Ecdsa.Signature
import CoinSpend.Proofs.Wire.Reads

/-!
# Reading written signatures

A signature is read off two components behind a length, each behind a length of its own. A component
is written in its least number of digits, with a zero in front of a digit that would look negative.
Both are below the group order, so the whole form has at most 72 bytes and its length fits into one
byte.

Results:
* `reads_component`, `ofDer_of_isDer`: what is read off bytes of the right shape.
* `isDer_toDer`: a written signature has that shape.
* `ofDer_toDer`: a written signature is read back.
* `length_toDer_le`: how long a written signature is.
-/

namespace CoinSpend.Signature

/-! ## The shape of a signature -/

/-- A component in the bytes `body`: a tag and the length of the bytes, of which there is one at
least. -/
def IsComponent (form body : Bytes) : Prop :=
  ∃ length : UInt8, form = integerTag :: length :: body ∧ length.toNat = body.length ∧ body ≠ []

/-- A signature with components in the bytes `r` and `s`: a tag and the length of all that
follows, which is the two components. -/
def IsDer (der r s : Bytes) : Prop :=
  ∃ (length : UInt8) (first second : Bytes), der = sequenceTag :: length :: (first ++ second) ∧
    length.toNat = (first ++ second).length ∧ IsComponent first r ∧ IsComponent second s

/-- A component is read as the number that its bytes write, in front of any bytes. -/
theorem reads_component {form body : Bytes} (h : IsComponent form body) :
    Reads readComponent form (Bytes.toNatBE body) := by
  obtain ⟨length, rfl, hlength, hne⟩ := h
  have hzero : length ≠ 0 := by
    rintro rfl
    exact hne (List.length_eq_zero_iff.mp hlength.symm)
  change Reads readComponent ([integerTag] ++ ([length] ++ body)) _
  refine (Reads.byte integerTag).bind ?_
  rw [if_neg (fun h => h rfl)]
  refine (Reads.byte length).bind ?_
  rw [if_neg hzero, hlength]
  exact (Reads.bytes body).map Bytes.toNatBE

/-! ## Reading in steps -/

theorem byte_bind_cons {α : Type} (next : UInt8 → Reader α) (b : UInt8) (bytes : Bytes)
    (position : ℕ) : (Reader.byte >>= next) ⟨b :: bytes, position⟩ =
      next b ⟨bytes, position + 1⟩ :=
  (Reads.byte b).bind_apply next bytes position

/-- What is done behind the two components. -/
def readEnd (r s : ℕ) : Reader Signature := do
  if (← Reader.remaining) ≠ 0 then Reader.fail .trailingSignatureBytes else ofComponents r s

/-- Behind a tag and the right length, two components are read. -/
theorem readDer_cons {length : UInt8} {body : Bytes} (h : length.toNat = body.length) :
    readDer ⟨sequenceTag :: length :: body, 0⟩ =
      (readComponent >>= fun r => readComponent >>= fun s => readEnd r s) ⟨body, 2⟩ := by
  rw [readDer, byte_bind_cons, if_neg (fun h => h rfl), byte_bind_cons]
  change (if length.toNat ≠ body.length then _ else _ : Reader Signature) _ = _
  rw [if_neg (not_not.mpr h)]
  rfl

/-- Bytes of the right shape are read as the signature of their components, if there is one. -/
theorem ofDer_of_isDer {der r s : Bytes} (h : IsDer der r s) :
    ofDer der = ofComponents (Bytes.toNatBE r) (Bytes.toNatBE s) := by
  obtain ⟨length, first, second, rfl, hlength, hr, hs⟩ := h
  change (readDer ⟨sequenceTag :: length :: (first ++ second), 0⟩).map Prod.fst = _
  rw [readDer_cons hlength, (reads_component hr).bind_apply, ← List.append_nil second,
    (reads_component hs).bind_apply]
  change Except.map Prod.fst ((liftM (ofComponents _ _) : Reader Signature) _) = _
  cases ofComponents (Bytes.toNatBE r) (Bytes.toNatBE s) <;> rfl

/-! ## Written components -/

theorem toNatBE_positiveBytes (value : ℕ) : Bytes.toNatBE (positiveBytes value) = value := by
  have hdigits := Bytes.toNatBE_digitsBE value
  unfold positiveBytes
  cases h : Bytes.digitsBE value with
  | nil =>
    rw [h] at hdigits
    exact hdigits
  | cons b bs =>
    rw [h] at hdigits
    simp only
    split
    · rw [Bytes.toNatBE_cons_zero]
      exact hdigits
    · exact hdigits

theorem length_positiveBytes_le {value n : ℕ} (h : value < 256 ^ n) :
    (positiveBytes value).length ≤ n + 1 := by
  have hdigits : (Bytes.digitsBE value).length ≤ n := by
    rw [Bytes.digitsBE, Bytes.length_ofNatBE]
    exact (Bytes.width_le_iff n value).mpr h
  unfold positiveBytes
  cases hcons : Bytes.digitsBE value with
  | nil => simp
  | cons b bs =>
    rw [hcons] at hdigits
    simp only
    split
    · simpa using hdigits
    · omega

theorem positiveBytes_ne_nil {value : ℕ} (h : 0 < value) : positiveBytes value ≠ [] := by
  intro hnil
  have hvalue := toNatBE_positiveBytes value
  rw [hnil] at hvalue
  exact absurd hvalue (Nat.ne_of_lt h)

theorem length_componentDer_le {value : ℕ} (h : value < 256 ^ 32) :
    (componentDer value).length ≤ 35 := by
  have hle := length_positiveBytes_le h
  simp only [componentDer, List.length_cons]
  omega

theorem isComponent_componentDer {value : ℕ} (hpos : 0 < value) (hlt : value < 256 ^ 32) :
    IsComponent (componentDer value) (positiveBytes value) := by
  have hle := length_positiveBytes_le hlt
  refine ⟨_, rfl, ?_, positiveBytes_ne_nil hpos⟩
  rw [UInt8.toNat_ofNat']
  omega

/-! ## Written signatures -/

theorem r_lt_pow (sig : Signature) : sig.r < 256 ^ 32 :=
  sig.r_lt.trans (by decide)

theorem s_lt_pow (sig : Signature) : sig.s < 256 ^ 32 :=
  sig.s_lt.trans (by decide)

theorem length_toDer_le (sig : Signature) : sig.toDer.length ≤ 72 := by
  have hr := length_componentDer_le sig.r_lt_pow
  have hs := length_componentDer_le sig.s_lt_pow
  simp only [toDer, List.length_cons, List.length_append]
  omega

/-- Every length in a written signature fits into its byte. -/
theorem isDer_toDer (sig : Signature) :
    IsDer sig.toDer (positiveBytes sig.r) (positiveBytes sig.s) := by
  have hr := length_componentDer_le sig.r_lt_pow
  have hs := length_componentDer_le sig.s_lt_pow
  refine ⟨_, _, _, rfl, ?_, isComponent_componentDer sig.r_pos sig.r_lt_pow,
    isComponent_componentDer sig.s_pos sig.s_lt_pow⟩
  rw [UInt8.toNat_ofNat', List.length_append]
  omega

/-- A written signature is read back. -/
theorem ofDer_toDer (sig : Signature) : ofDer sig.toDer = .ok sig := by
  rw [ofDer_of_isDer sig.isDer_toDer, toNatBE_positiveBytes, toNatBE_positiveBytes,
    ofComponents_components]

end CoinSpend.Signature
