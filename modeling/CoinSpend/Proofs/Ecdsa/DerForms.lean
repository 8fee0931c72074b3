import CoinSpend.Proofs.Ecdsa.Der

/-!
# Which bytes are signatures

Three lengths have to agree with the data: that of the whole signature and those of its two
components. Whatever disagrees makes the bytes malformed; bytes of the right shape can only be
refused for the range of their components, which may have leading zeros. Of the forms of a signature
the one that is written has the fewest bytes.

Results:
* `component_cases`, `ofDer_cases`: bytes have the right shape, or they are malformed.
* `positiveBytes_shortest`: a component is written in the fewest bytes with their top bit clear.
* `ofDer_exact`: which bytes are signatures, and what is wrong with the others.
-/

namespace CoinSpend.Signature

/-! ## Malformed bytes -/

/-- The computation ends in an error about the form of the bytes. -/
def IsMalformed {α : Type} (x : Except Error α) : Prop := ∃ e, x = .error e ∧ e.kind = .format

theorem IsMalformed.bind {α β : Type} {x : Except Error α} (h : IsMalformed x)
    (f : α → Except Error β) : IsMalformed (x >>= f) := by
  obtain ⟨e, rfl, he⟩ := h
  exact ⟨e, rfl, he⟩

theorem IsMalformed.map {α β : Type} {x : Except Error α} {f : α → β} (h : IsMalformed x) :
    IsMalformed (x.map f) := by
  obtain ⟨e, rfl, he⟩ := h
  exact ⟨e, rfl, he⟩

theorem isMalformed_fail {α : Type} {e : Error} (h : e.kind = .format) (cursor : Cursor) :
    IsMalformed ((Reader.fail e : Reader α) cursor) := ⟨e, rfl, h⟩

theorem isMalformed_take {n : ℕ} {cursor : Cursor} (h : cursor.rest.length < n) :
    IsMalformed (Reader.take n cursor) :=
  ⟨_, Reader.take_eq_error_iff.mpr ⟨h, rfl⟩, rfl⟩

/-- A reader that starts with a byte is malformed without one. -/
theorem isMalformed_byte_bind {α : Type} (next : UInt8 → Reader α) (position : ℕ) :
    IsMalformed ((Reader.byte >>= next) ⟨[], position⟩) := ⟨_, rfl, rfl⟩

/-- Bytes start with a component, or none is read off them. -/
theorem component_cases (bytes : Bytes) :
    (∃ form body rest, IsComponent form body ∧ bytes = form ++ rest) ∨
      ∀ position, IsMalformed (readComponent ⟨bytes, position⟩) := by
  unfold readComponent
  rcases bytes with - | ⟨tag, bytes⟩
  · exact .inr (isMalformed_byte_bind _)
  by_cases htag : tag = integerTag
  swap
  · refine .inr fun position => ?_
    rw [byte_bind_cons, if_pos htag]
    exact isMalformed_fail rfl _
  rcases bytes with - | ⟨length, bytes⟩
  · refine .inr fun position => ?_
    rw [byte_bind_cons, if_neg (not_not.mpr htag)]
    exact isMalformed_byte_bind _ _
  by_cases hzero : length = 0
  · refine .inr fun position => ?_
    rw [byte_bind_cons, if_neg (not_not.mpr htag), byte_bind_cons, if_pos hzero]
    exact isMalformed_fail rfl _
  rcases Nat.lt_or_ge bytes.length length.toNat with hroom | hroom
  · refine .inr fun position => ?_
    rw [byte_bind_cons, if_neg (not_not.mpr htag), byte_bind_cons, if_neg hzero]
    exact ((isMalformed_take hroom).bind _).bind _
  · have hlength : (bytes.take length.toNat).length = length.toNat := List.length_take_of_le hroom
    refine .inl ⟨tag :: length :: bytes.take length.toNat, bytes.take length.toNat,
      bytes.drop length.toNat, ⟨length, by rw [htag], hlength.symm, ?_⟩, ?_⟩
    · intro hnil
      rw [hnil] at hlength
      exact hzero (UInt8.toNat_inj.mp hlength.symm)
    · rw [List.cons_append, List.cons_append, List.take_append_drop]

theorem isMalformed_readEnd (r s : ℕ) (b : UInt8) (rest : Bytes) (position : ℕ) :
    IsMalformed (readEnd r s ⟨b :: rest, position⟩) := ⟨_, rfl, rfl⟩

/-- Bytes have the shape of a signature, or they are malformed. -/
theorem ofDer_cases (der : Bytes) : (∃ r s, IsDer der r s) ∨ IsMalformed (ofDer der) := by
  change _ ∨ IsMalformed ((readDer ⟨der, 0⟩).map Prod.fst)
  rcases der with - | ⟨tag, der⟩
  · exact .inr ⟨_, rfl, rfl⟩
  by_cases htag : tag = sequenceTag
  swap
  · refine .inr (IsMalformed.map ?_)
    rw [readDer, byte_bind_cons, if_pos htag]
    exact isMalformed_fail rfl _
  rcases der with - | ⟨length, body⟩
  · refine .inr (IsMalformed.map ?_)
    rw [readDer, byte_bind_cons, if_neg (not_not.mpr htag)]
    exact isMalformed_byte_bind _ _
  by_cases hlength : length.toNat = body.length
  swap
  · refine .inr (IsMalformed.map ?_)
    rw [readDer, byte_bind_cons, if_neg (not_not.mpr htag), byte_bind_cons]
    change IsMalformed ((if length.toNat ≠ body.length then _ else _ : Reader Signature) _)
    rw [if_pos hlength]
    exact isMalformed_fail rfl _
  subst htag
  rw [readDer_cons hlength]
  rcases component_cases body with ⟨first, r, rest, hr, rfl⟩ | hmalformed
  swap
  · exact .inr ((hmalformed 2).bind _).map
  rcases component_cases rest with ⟨second, s, rest, hs, rfl⟩ | hmalformed
  swap
  · rw [(reads_component hr).bind_apply]
    exact .inr ((hmalformed _).bind _).map
  rcases rest with - | ⟨b, rest⟩
  · rw [List.append_nil] at hlength ⊢
    exact .inl ⟨r, s, length, first, second, rfl, hlength, hr, hs⟩
  · rw [(reads_component hr).bind_apply, (reads_component hs).bind_apply]
    exact .inr (isMalformed_readEnd _ _ _ _ _).map

/-! ## The fewest bytes -/

/-- The bytes do not look like those of a negative number. -/
def TopBitClear (bytes : Bytes) : Prop := ∃ b rest, bytes = b :: rest ∧ b < 0x80

theorem two_mul_toNatBE_cons_lt_iff (b : UInt8) (rest : Bytes) :
    2 * Bytes.toNatBE (b :: rest) < 256 ^ (rest.length + 1) ↔ b < 0x80 := by
  have hlength : rest.reverse.length = rest.length := List.length_reverse
  rw [Bytes.toNatBE, List.reverse_cons, ← hlength, Bytes.two_mul_toNatLE_concat_lt_iff]

theorem TopBitClear.lt_length {bytes : Bytes} {width : ℕ} (h : TopBitClear bytes)
    (hwide : 256 ^ width ≤ 2 * Bytes.toNatBE bytes) : width < bytes.length := by
  obtain ⟨b, rest, rfl, hb⟩ := h
  have hlt := (two_mul_toNatBE_cons_lt_iff b rest).mpr hb
  exact (Nat.pow_lt_pow_iff_right (by decide)).mp (hwide.trans_lt hlt)

/-- A component is written with its top bit clear, and in no more bytes than that takes. -/
theorem positiveBytes_shortest {value : ℕ} (hpos : 0 < value) :
    TopBitClear (positiveBytes value) ∧ ∀ other, TopBitClear other →
      Bytes.toNatBE other = value → (positiveBytes value).length ≤ other.length := by
  obtain ⟨b, rest, hdigits, hfirst⟩ := Bytes.exists_digitsBE (Nat.ne_of_gt hpos)
  have hvalue := Bytes.toNatBE_digitsBE value
  have hbound := Bytes.pow_le_toNatBE_cons hfirst rest
  rw [hdigits] at hvalue
  rw [hvalue] at hbound
  unfold positiveBytes
  rw [hdigits]
  simp only
  by_cases hb : b < 0x80
  · rw [if_neg (UInt8.not_le.mpr hb)]
    refine ⟨⟨b, rest, rfl, hb⟩, fun other hother heq => hother.lt_length ?_⟩
    rw [heq]
    omega
  · rw [if_pos (UInt8.not_lt.mp hb)]
    refine ⟨⟨0, b :: rest, rfl, by decide⟩, fun other hother heq => hother.lt_length ?_⟩
    rw [heq, ← hvalue]
    exact Nat.not_lt.mp ((two_mul_toNatBE_cons_lt_iff b rest).not.mpr hb)

/-! ## Which bytes are signatures -/

/-- A number between 1 and the one below the group order. -/
def IsScalar (value : ℕ) : Prop := 1 ≤ value ∧ value ≤ Secp256k1.n - 1

theorem isScalar_iff {value : ℕ} : IsScalar value ↔ 0 < value ∧ value < Secp256k1.n := by
  have hn : 0 < Secp256k1.n := by decide
  unfold IsScalar
  omega

theorem ofComponents_eq_error_iff_not_isScalar {r s : ℕ} {e : Error} :
    ofComponents r s = .error e ↔ ¬(IsScalar r ∧ IsScalar s) ∧ e = .signatureOutOfRange r s := by
  rw [ofComponents_eq_error_iff, isScalar_iff, isScalar_iff, and_assoc]

/-- Bytes of the right shape are a signature exactly if both components are in the range. -/
theorem ofDer_eq_ok_iff {der : Bytes} {sig : Signature} : ofDer der = .ok sig ↔
    ∃ r s, IsDer der r s ∧ sig.r = Bytes.toNatBE r ∧ sig.s = Bytes.toNatBE s := by
  constructor
  · intro h
    rcases ofDer_cases der with ⟨r, s, hder⟩ | ⟨e, he, -⟩
    · rw [ofDer_of_isDer hder, ofComponents_eq_ok_iff] at h
      exact ⟨r, s, hder, h⟩
    · rw [h] at he
      cases he
  · rintro ⟨r, s, hder, hcomponents⟩
    rw [ofDer_of_isDer hder, ofComponents_eq_ok_iff]
    exact hcomponents

/-- Only bytes of the right shape are refused for the range of their components. -/
theorem ofDer_eq_validation_error_iff {der : Bytes} {e : Error} :
    (ofDer der = .error e ∧ e.kind = .validation) ↔
      ∃ r s, IsDer der r s ∧ ¬(IsScalar (Bytes.toNatBE r) ∧ IsScalar (Bytes.toNatBE s)) ∧
        e = .signatureOutOfRange (Bytes.toNatBE r) (Bytes.toNatBE s) := by
  constructor
  · rintro ⟨h, hkind⟩
    rcases ofDer_cases der with ⟨r, s, hder⟩ | ⟨e', he, hformat⟩
    · rw [ofDer_of_isDer hder, ofComponents_eq_error_iff_not_isScalar] at h
      exact ⟨r, s, hder, h⟩
    · rw [h, Except.error.injEq] at he
      rw [← he, hkind] at hformat
      cases hformat
  · rintro ⟨r, s, hder, hrange⟩
    rw [ofDer_of_isDer hder, ofComponents_eq_error_iff_not_isScalar]
    refine ⟨hrange, ?_⟩
    rw [hrange.2]
    rfl

/-- All other bytes are malformed. -/
theorem isMalformed_ofDer_iff {der : Bytes} :
    IsMalformed (ofDer der) ↔ ¬∃ r s, IsDer der r s := by
  constructor
  · rintro ⟨e, he, hformat⟩ ⟨r, s, hder⟩
    rw [ofDer_of_isDer hder, ofComponents_eq_error_iff] at he
    rw [he.2] at hformat
    cases hformat
  · exact fun h => (ofDer_cases der).resolve_left h

/-- Bytes are the signature of two numbers exactly if they have the right shape, with the numbers as
components, and both are in the range. The right shape with a component out of range is a
validation error; every other shape is a format error. A signature is written in this shape in 72
bytes at most, each component in the fewest bytes with a clear top bit, and read back. -/
theorem ofDer_exact (der : Bytes) :
    (∀ R S, (∃ sig, ofDer der = .ok sig ∧ sig.r = R ∧ sig.s = S) ↔
      (∃ r s, IsDer der r s ∧ Bytes.toNatBE r = R ∧ Bytes.toNatBE s = S) ∧
        IsScalar R ∧ IsScalar S) ∧
    (∀ e, (ofDer der = .error e ∧ e.kind = .validation) ↔
      ∃ r s, IsDer der r s ∧ ¬(IsScalar (Bytes.toNatBE r) ∧ IsScalar (Bytes.toNatBE s)) ∧
        e = .signatureOutOfRange (Bytes.toNatBE r) (Bytes.toNatBE s)) ∧
    ((∃ e, ofDer der = .error e ∧ e.kind = .format) ↔ ¬∃ r s, IsDer der r s) ∧
    ∀ sig : Signature, sig.toDer.length ≤ 72 ∧
      IsDer sig.toDer (positiveBytes sig.r) (positiveBytes sig.s) ∧
      (∀ value, value = sig.r ∨ value = sig.s →
        Bytes.toNatBE (positiveBytes value) = value ∧ TopBitClear (positiveBytes value) ∧
          ∀ other, TopBitClear other → Bytes.toNatBE other = value →
            (positiveBytes value).length ≤ other.length) ∧
      ofDer sig.toDer = .ok sig := by
  refine ⟨fun R S => ?_, fun e => ofDer_eq_validation_error_iff, isMalformed_ofDer_iff,
    fun sig => ⟨sig.length_toDer_le, sig.isDer_toDer, ?_, sig.ofDer_toDer⟩⟩
  · constructor
    · rintro ⟨sig, hsig, rfl, rfl⟩
      obtain ⟨r, s, hder, hr, hs⟩ := ofDer_eq_ok_iff.mp hsig
      exact ⟨⟨r, s, hder, hr.symm, hs.symm⟩, isScalar_iff.mpr ⟨sig.r_pos, sig.r_lt⟩,
        isScalar_iff.mpr ⟨sig.s_pos, sig.s_lt⟩⟩
    · rintro ⟨⟨r, s, hder, rfl, rfl⟩, hr, hs⟩
      obtain ⟨hrpos, hrlt⟩ := isScalar_iff.mp hr
      obtain ⟨hspos, hslt⟩ := isScalar_iff.mp hs
      exact ⟨⟨_, _, hrpos, hrlt, hspos, hslt⟩, ofDer_eq_ok_iff.mpr ⟨r, s, hder, rfl, rfl⟩, rfl, rfl⟩
  · rintro value (rfl | rfl)
    · exact ⟨toNatBE_positiveBytes _, positiveBytes_shortest sig.r_pos⟩
    · exact ⟨toNatBE_positiveBytes _, positiveBytes_shortest sig.s_pos⟩

end CoinSpend.Signature
