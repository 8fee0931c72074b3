import CoinSpend.Proofs.Curve.Points
import CoinSpend.Proofs.Curve.Sec

/-!
# Points and their public keys

Every point of secp256k1 with coordinates has one compressed and one full form, and only these two
byte strings are read as the point. That there is only one compressed form needs that no point has
the y coordinate zero, whose two signs could not be told apart: `-7` is no cube modulo `p`.

Results:
* `Secp256k1.cube_add_seven_ne_zero`: no point has the y coordinate zero.
* `Point.ofAbscissa_eq_ok_iff`, `Point.point_eq_ok_iff`: which numbers make a point.
* `Point.ofSec_toSec`, `Point.toSec_of_ofSec`: reading and writing are inverse.
* `Point.secForms_points`: which byte strings are read, as what, and how the others are refused.
-/

namespace CoinSpend

open Secp256k1 (p)

/-! ## No point of order two -/

namespace Secp256k1

/-- There is no point with the y coordinate zero. -/
theorem cube_add_seven_ne_zero (x : ZMod p) : x * x * x + 7 ≠ 0 := by
  intro h
  -- a cube other than zero has the power 1 to a third of `p - 1`, which `-7` has not
  have hcube : x ^ 3 = ((p - 7 : ℕ) : ZMod p) := by
    rw [Nat.cast_sub (by decide), ZMod.natCast_self]
    push_cast
    linear_combination h
  have hx : x ≠ 0 := by
    rintro rfl
    revert h
    decide
  have hthird : 3 * ((p - 1) / 3) = p - 1 := by decide
  have hpow : ((p - 7 : ℕ) : ZMod p) ^ ((p - 1) / 3) = 1 := by
    rw [← hcube, ← pow_mul, hthird, ZMod.pow_card_sub_one_eq_one hx]
  have hne : Modular.powMod (p - 7) ((p - 1) / 3) p ≠ 1 := by decide +kernel
  exact hne ((LucasTest.natCast_pow_eq_one_iff (by decide) _ _).mp hpow)

theorem exists_sqrt (x : ZMod p) : ∃ root : ZMod p, sqrt (.ofZMod x) = .ofZMod root :=
  ⟨_, FieldElement.ofZMod_powNat x ((p + 1) / 4)⟩

end Secp256k1

namespace Point

variable {P : Point}

/-! ## Points from numbers -/

theorem field_eq_ok_iff {num : ℕ} {x : FieldElement} :
    Secp256k1.field num = .ok x ↔ ∃ u : ZMod p, u.val = num ∧ x = .ofZMod u := by
  constructor
  · intro h
    unfold Secp256k1.field FieldElement.ofNat at h
    split at h
    · split at h
      · next hlt =>
        cases h
        exact ⟨num, ZMod.val_cast_of_lt hlt, (FieldElement.ofZMod_num (m := p) _ rfl).symm⟩
      · simp at h
    · simp at h
  · rintro ⟨u, rfl, rfl⟩
    exact FieldElement.ofNat_val u

theorem ofCoordinates_secp256k1_iff {x y : FieldElement} :
    ofCoordinates Secp256k1.curve x y = .ok P ↔ ∃ u v : ZMod p,
      v * v = u * u * u + 0 * u + 7 ∧ x = .ofZMod u ∧ y = .ofZMod v ∧
        P = affine Secp256k1.curve (.ofZMod u) (.ofZMod v) := by
  rw [Secp256k1.curve_eq]
  exact ofCoordinates_eq_ok_iff

/-- Two numbers make a point if they are residues that satisfy the equation. -/
theorem point_eq_ok_iff {n k : ℕ} :
    Secp256k1.point n k = .ok P ↔ ∃ x y : ZMod p, y * y = x * x * x + 0 * x + 7 ∧ x.val = n ∧
      y.val = k ∧ P = affine Secp256k1.curve (.ofZMod x) (.ofZMod y) := by
  unfold Secp256k1.point
  simp only [bind_eq_ok_iff, field_eq_ok_iff, ofCoordinates_secp256k1_iff]
  constructor
  · rintro ⟨_, ⟨x, hx, rfl⟩, _, ⟨y, hy, rfl⟩, u, v, hequation, hu, hv, rfl⟩
    obtain rfl := FieldElement.ofZMod_injective hu
    obtain rfl := FieldElement.ofZMod_injective hv
    exact ⟨x, y, hequation, hx, hy, rfl⟩
  · rintro ⟨x, y, hequation, hx, hy, rfl⟩
    exact ⟨_, ⟨x, hx, rfl⟩, _, ⟨y, hy, rfl⟩, x, y, hequation, rfl, rfl, rfl⟩

/-- A number and a parity make a point if it is the x coordinate of a point whose y coordinate has
the parity. -/
theorem ofAbscissa_eq_ok_iff {odd : Bool} {num : ℕ} :
    ofAbscissa odd num = .ok P ↔ ∃ x y : ZMod p, y * y = x * x * x + 0 * x + 7 ∧ x.val = num ∧
      decide (y.val % 2 = 1) = odd ∧ P = affine Secp256k1.curve (.ofZMod x) (.ofZMod y) := by
  constructor
  · intro h
    unfold ofAbscissa at h
    obtain ⟨_, hfield, h⟩ := bind_eq_ok_iff.mp h
    obtain ⟨x, hx, rfl⟩ := field_eq_ok_iff.mp hfield
    have hb : Secp256k1.curve.b = .ofZMod 7 := congrArg Curve.b Secp256k1.curve_eq
    obtain ⟨root, hsqrt⟩ := Secp256k1.exists_sqrt (x * x * x + 7)
    simp only [hb, FieldElement.ofZMod_mul, FieldElement.ofZMod_add, ok_bind, hsqrt,
      FieldElement.ofZMod_inj] at h
    split at h
    · next hroot =>
      have hne : root ≠ 0 := by
        rintro rfl
        exact Secp256k1.cube_add_seven_ne_zero x (by rw [← hroot, zero_mul])
      -- of the two roots, the one with the parity is taken
      split at h
      · next hparity =>
        obtain ⟨u, y, hequation, hu, hy, rfl⟩ := ofCoordinates_secp256k1_iff.mp h
        obtain rfl := FieldElement.ofZMod_injective hu
        obtain rfl := FieldElement.ofZMod_injective hy
        rw [FieldElement.num_ofZMod] at hparity
        exact ⟨x, root, hequation, hx, by rw [← Bool.coe_iff_coe, decide_eq_true_eq, hparity], rfl⟩
      · next hparity =>
        rw [FieldElement.zeroOf_ofZMod, FieldElement.ofZMod_sub, ok_bind, zero_sub] at h
        obtain ⟨u, y, hequation, hu, hy, rfl⟩ := ofCoordinates_secp256k1_iff.mp h
        obtain rfl := FieldElement.ofZMod_injective hu
        obtain rfl := FieldElement.ofZMod_injective hy
        rw [FieldElement.num_ofZMod, eq_iff_iff] at hparity
        refine ⟨x, -root, hequation, hx, ?_, rfl⟩
        rw [← Bool.coe_iff_coe, decide_eq_true_eq, Secp256k1.odd_val_neg_iff hne]
        exact not_iff.mp hparity
    · simp at h
  · rintro ⟨x, y, hequation, rfl, rfl, rfl⟩
    exact ofAbscissa_ofZMod hequation

/-- A number is the x coordinate of points of either parity if it is a residue and its cube plus 7
is a square. -/
theorem exists_ofAbscissa_iff (odd : Bool) (num : ℕ) :
    (∃ P, ofAbscissa odd num = .ok P) ↔ num < p ∧ IsSquare ((num : ZMod p) ^ 3 + 7) := by
  have hcube : ∀ x : ZMod p, x ^ 3 + 7 = x * x * x + 0 * x + 7 := by
    intro x
    ring
  simp only [ofAbscissa_eq_ok_iff]
  constructor
  · rintro ⟨_, x, y, hequation, rfl, -, -⟩
    refine ⟨x.val_lt, y, ?_⟩
    rw [ZMod.natCast_zmod_val, hcube, hequation]
  · rintro ⟨hlt, y, hy⟩
    rw [hcube] at hy
    have hval := ZMod.val_cast_of_lt hlt
    have hne : y ≠ 0 := by
      rintro rfl
      exact Secp256k1.cube_add_seven_ne_zero num (by linear_combination hy)
    by_cases hparity : decide (y.val % 2 = 1) = odd
    · exact ⟨_, num, y, hy.symm, hval, hparity, rfl⟩
    · refine ⟨_, num, -y, by rw [neg_mul_neg, hy], hval, ?_, rfl⟩
      rw [← Bool.coe_iff_coe, decide_eq_true_eq] at hparity ⊢
      rw [Secp256k1.odd_val_neg_iff hne]
      exact not_iff.mp hparity

/-! ## The two forms -/

/-- The full form of a point. -/
def full (x y : ZMod p) : Bytes := 0x04 :: (Bytes.ofNatBE 32 x.val ++ Bytes.ofNatBE 32 y.val)

theorem toSec_full (curve : Curve) (x y : ZMod p) :
    (affine curve (.ofZMod x) (.ofZMod y)).toSec false = .ok (full x y) := by
  change (Wire.writeBE 32 x.val >>= fun xBytes => Wire.writeBE 32 y.val >>= fun yBytes =>
    .ok (0x04 :: xBytes.val ++ yBytes.val)) = _
  rw [writeBE_coordinate, writeBE_coordinate]
  rfl

theorem ofNatBE_coordinate {x : ZMod p} {bytes : Bytes} (hlength : bytes.length = 32)
    (h : x.val = Bytes.toNatBE bytes) : Bytes.ofNatBE 32 x.val = bytes := by
  rw [h, ← hlength, Bytes.ofNatBE_toNatBE]

/-- Exactly the two forms of a point are read as it. -/
theorem ofSec_eq_ok_iff {bytes : Bytes} :
    ofSec bytes = .ok P ↔ ∃ x y : ZMod p, y * y = x * x * x + 0 * x + 7 ∧
      P = affine Secp256k1.curve (.ofZMod x) (.ofZMod y) ∧
      (bytes = compressed x y ∨ bytes = full x y) := by
  constructor
  · intro h
    cases bytes with
    | nil => simp [ofSec] at h
    | cons form body =>
      rw [ofSec] at h
      split at h
      · next hform =>
        obtain ⟨rfl, hlength⟩ := hform
        obtain ⟨x, y, hequation, hx, hy, rfl⟩ := point_eq_ok_iff.mp h
        refine ⟨x, y, hequation, rfl, .inr ?_⟩
        rw [full, ofNatBE_coordinate (by rw [List.length_take]; omega) hx,
          ofNatBE_coordinate (by rw [List.length_drop]; omega) hy, List.take_append_drop]
      · split at h
        · next hform =>
          obtain ⟨hform, hlength⟩ := hform
          obtain ⟨x, y, hequation, hx, hparity, rfl⟩ := ofAbscissa_eq_ok_iff.mp h
          refine ⟨x, y, hequation, rfl, .inl ?_⟩
          rw [decide_eq_decide] at hparity
          rw [compressed, ofNatBE_coordinate hlength hx]
          rcases hform with rfl | rfl <;> simp [hparity]
        · split at h <;> simp at h
  · rintro ⟨x, y, hequation, rfl, rfl | rfl⟩
    · rw [ofSec_compressed (Secp256k1.nonsingular_iff.mpr hequation), ofAffine_some,
        Secp256k1.curve_eq]
    · have htake : (Bytes.ofNatBE 32 x.val ++ Bytes.ofNatBE 32 y.val).take 32 =
          Bytes.ofNatBE 32 x.val := List.take_left' (by simp)
      have hdrop : (Bytes.ofNatBE 32 x.val ++ Bytes.ofNatBE 32 y.val).drop 32 =
          Bytes.ofNatBE 32 y.val := List.drop_left' (by simp)
      rw [full, ofSec, if_pos ⟨rfl, by simp⟩, htake, hdrop, toNatBE_coordinate, toNatBE_coordinate]
      exact point_eq_ok_iff.mpr ⟨x, y, hequation, rfl, rfl, rfl⟩

/-- A point is read from either form that is written of it. -/
theorem ofSec_toSec {x y : FieldElement} (h : ofCoordinates Secp256k1.curve x y = .ok P)
    (compress : Bool) : ∃ bytes, P.toSec compress = .ok bytes ∧ ofSec bytes = .ok P := by
  obtain ⟨u, v, hequation, -, -, rfl⟩ := ofCoordinates_secp256k1_iff.mp h
  cases compress with
  | true =>
    exact ⟨_, toSec_compressed _ u v, ofSec_eq_ok_iff.mpr ⟨u, v, hequation, rfl, .inl rfl⟩⟩
  | false => exact ⟨_, toSec_full _ u v, ofSec_eq_ok_iff.mpr ⟨u, v, hequation, rfl, .inr rfl⟩⟩

/-- What is read is a point of the curve, and the bytes are its form of their length. -/
theorem toSec_of_ofSec {bytes : Bytes} (h : ofSec bytes = .ok P) :
    (∃ x y, ofCoordinates Secp256k1.curve x y = .ok P) ∧
      P.toSec (bytes.length = 33) = .ok bytes := by
  obtain ⟨x, y, hequation, rfl, hbytes⟩ := ofSec_eq_ok_iff.mp h
  refine ⟨⟨_, _, ofCoordinates_secp256k1_iff.mpr ⟨x, y, hequation, rfl, rfl, rfl⟩⟩, ?_⟩
  rcases hbytes with rfl | rfl
  · have hlength : (compressed x y).length = 33 := by simp [compressed]
    rw [hlength]
    exact toSec_compressed _ x y
  · have hlength : (full x y).length = 65 := by simp [full]
    rw [hlength]
    exact toSec_full _ x y

/-! ## What is refused -/

/-- The length of the bytes is that of the form which their first byte names. -/
inductive IsSecForm : Bytes → Prop
  | compressed {form : UInt8} {body : Bytes} (hform : form = 0x02 ∨ form = 0x03)
    (hbody : body.length = 32) : IsSecForm (form :: body)
  | full {body : Bytes} (hbody : body.length = 64) : IsSecForm (0x04 :: body)

theorem combine_failsWith (operation : FieldOperation) (x y : FieldElement) (value : ℕ) :
    FailsWith (·.kind = .validation) (FieldElement.combine operation x y value) := by
  unfold FieldElement.combine
  split
  · exact .ok _
  · exact .error rfl

theorem field_failsWith (num : ℕ) : FailsWith (·.kind = .validation) (Secp256k1.field num) := by
  unfold Secp256k1.field FieldElement.ofNat
  split
  · split
    · exact .ok _
    · exact .error rfl
  · exact .error rfl

theorem ofCoordinates_failsWith (curve : Curve) (x y : FieldElement) :
    FailsWith (·.kind = .validation) (ofCoordinates curve x y) := by
  refine (combine_failsWith _ _ _ _).bind fun left => ?_
  refine (combine_failsWith _ _ _ _).bind fun square => ?_
  refine (combine_failsWith _ _ _ _).bind fun cube => ?_
  refine (combine_failsWith _ _ _ _).bind fun linear => ?_
  refine (combine_failsWith _ _ _ _).bind fun sum => ?_
  refine (combine_failsWith _ _ _ _).bind fun right => ?_
  split
  · exact .ok _
  · exact .error rfl

theorem ofAbscissa_failsWith (odd : Bool) (num : ℕ) :
    FailsWith (·.kind = .validation) (ofAbscissa odd num) := by
  refine (field_failsWith num).bind fun x => ?_
  refine (combine_failsWith _ _ _ _).bind fun square => ?_
  refine (combine_failsWith _ _ _ _).bind fun cube => ?_
  refine (combine_failsWith _ _ _ _).bind fun sum => ?_
  refine (combine_failsWith _ _ _ _).bind fun back => ?_
  split
  · split
    · exact ofCoordinates_failsWith _ _ _
    · exact (combine_failsWith _ _ _ _).bind fun y => ofCoordinates_failsWith _ _ _
  · exact .error rfl

/-- Bytes of either form are refused for their numbers. -/
theorem ofSec_failsWith {bytes : Bytes} (h : IsSecForm bytes) :
    FailsWith (·.kind = .validation) (ofSec bytes) := by
  cases h with
  | compressed hform hbody =>
    rw [ofSec, if_neg (by rintro ⟨-, h⟩; omega), if_pos ⟨hform, hbody⟩]
    exact ofAbscissa_failsWith _ _
  | full hbody =>
    rw [ofSec, if_pos ⟨rfl, hbody⟩]
    refine (field_failsWith _).bind fun x => ?_
    exact (field_failsWith _).bind fun y => ofCoordinates_failsWith _ _ _

/-- Bytes of neither form are refused for their format. -/
theorem exists_ofSec_error {bytes : Bytes} (h : ¬ IsSecForm bytes) :
    ∃ e, ofSec bytes = .error e ∧ e.kind = .format := by
  cases bytes with
  | nil => exact ⟨_, rfl, rfl⟩
  | cons form body =>
    have hfull : ¬ (form = 0x04 ∧ body.length = 64) := by
      rintro ⟨rfl, hbody⟩
      exact h (.full hbody)
    have hcompressed : ¬ ((form = 0x02 ∨ form = 0x03) ∧ body.length = 32) :=
      fun hform => h (.compressed hform.1 hform.2)
    rw [ofSec, if_neg hfull, if_neg hcompressed]
    split
    · exact ⟨_, rfl, rfl⟩
    · exact ⟨_, rfl, rfl⟩

/-! ## What is read -/

theorem exists_ofSec_compressed_iff {form : UInt8} {body : Bytes}
    (hform : form = 0x02 ∨ form = 0x03) (hbody : body.length = 32) :
    (∃ P, ofSec (form :: body) = .ok P) ↔
      Bytes.toNatBE body < p ∧ IsSquare ((Bytes.toNatBE body : ZMod p) ^ 3 + 7) := by
  rw [← exists_ofAbscissa_iff (form = 0x03), ofSec, if_neg (by rintro ⟨-, h⟩; omega),
    if_pos ⟨hform, hbody⟩]

theorem exists_ofSec_full_iff {body : Bytes} (hbody : body.length = 64) :
    (∃ P, ofSec (0x04 :: body) = .ok P) ↔
      Bytes.toNatBE (body.take 32) < p ∧ Bytes.toNatBE (body.drop 32) < p ∧
        (Bytes.toNatBE (body.drop 32) : ZMod p) ^ 2 =
          (Bytes.toNatBE (body.take 32) : ZMod p) ^ 3 + 7 := by
  have hequation : ∀ x y : ZMod p, y ^ 2 = x ^ 3 + 7 ↔ y * y = x * x * x + 0 * x + 7 := by
    intro x y
    ring_nf
  rw [ofSec, if_pos ⟨rfl, hbody⟩]
  simp only [point_eq_ok_iff]
  constructor
  · rintro ⟨_, x, y, h, hx, hy, -⟩
    rw [← hx, ← hy]
    refine ⟨x.val_lt, y.val_lt, ?_⟩
    rw [ZMod.natCast_zmod_val, ZMod.natCast_zmod_val, hequation]
    exact h
  · rintro ⟨hx, hy, h⟩
    exact ⟨_, _, _, (hequation _ _).mp h, ZMod.val_cast_of_lt hx, ZMod.val_cast_of_lt hy, rfl⟩

/-- A point with coordinates is read from each of its forms. What is read is such a point, and the
bytes are its form of their length, so it has no other one of that length. Bytes of the compressed
form are read if their number is the x coordinate of a point, those of the full form if their two
numbers are coordinates of a point; if not, they are refused for the value, and all other bytes for
the format. -/
theorem secForms_points :
    (∀ {x y : FieldElement} {P : Point}, ofCoordinates Secp256k1.curve x y = .ok P →
      ∀ compress, ∃ bytes, P.toSec compress = .ok bytes ∧ ofSec bytes = .ok P) ∧
    (∀ {bytes : Bytes} {P : Point}, ofSec bytes = .ok P →
      (∃ x y, ofCoordinates Secp256k1.curve x y = .ok P) ∧
        P.toSec (bytes.length = 33) = .ok bytes ∧
        ∀ other, ofSec other = .ok P → other.length = bytes.length → other = bytes) ∧
    (∀ {form : UInt8} {body : Bytes}, form = 0x02 ∨ form = 0x03 → body.length = 32 →
      ((∃ P, ofSec (form :: body) = .ok P) ↔
        Bytes.toNatBE body < p ∧ IsSquare ((Bytes.toNatBE body : ZMod p) ^ 3 + 7))) ∧
    (∀ {body : Bytes}, body.length = 64 →
      ((∃ P, ofSec (0x04 :: body) = .ok P) ↔
        Bytes.toNatBE (body.take 32) < p ∧ Bytes.toNatBE (body.drop 32) < p ∧
          (Bytes.toNatBE (body.drop 32) : ZMod p) ^ 2 =
            (Bytes.toNatBE (body.take 32) : ZMod p) ^ 3 + 7)) ∧
    (∀ {bytes : Bytes}, IsSecForm bytes → ∀ e, ofSec bytes = .error e → e.kind = .validation) ∧
    ∀ {bytes : Bytes}, ¬ IsSecForm bytes → ∃ e, ofSec bytes = .error e ∧ e.kind = .format := by
  refine ⟨ofSec_toSec, ?_, exists_ofSec_compressed_iff, exists_ofSec_full_iff, ofSec_failsWith,
    exists_ofSec_error⟩
  intro bytes P h
  obtain ⟨hpoint, hbytes⟩ := toSec_of_ofSec h
  refine ⟨hpoint, hbytes, ?_⟩
  intro other hother hlength
  have hwritten := (toSec_of_ofSec hother).2
  rw [hlength, hbytes] at hwritten
  exact (Except.ok.inj hwritten).symm

/-- The forms of the generator, an x coordinate that is no residue, the coordinates `(0, 0)`, and a
byte string that is too short. -/
theorem secForms_generator :
    (∃ bytes, Secp256k1.generator.toSec true = .ok bytes ∧
      ofSec bytes = .ok Secp256k1.generator ∧
      Secp256k1.generator.toSec (bytes.length = 33) = .ok bytes) ∧
    (¬ ∃ P, ofSec (0x03 :: List.replicate 32 0xff) = .ok P) ∧
    (¬ ∃ P, ofSec (0x04 :: List.replicate 64 0x00) = .ok P) ∧
    (∀ e, ofSec (0x03 :: List.replicate 32 0xff) = .error e → e.kind = .validation) ∧
    ∃ e, ofSec [0x02] = .error e ∧ e.kind = .format := by
  obtain ⟨hread, hwritten, hcompressed, hfull, hvalue, hformat⟩ := secForms_points
  have hpoint : ofCoordinates Secp256k1.curve
      ⟨0x79be667ef9dcbbac55a06295ce870b07029bfcdb2dce28d959f2815b16f81798, p, by decide, by decide⟩
      ⟨0x483ada7726a3c4655da4fbfc0e1108a8fd17b448a68554199c47d08ffb10d4b8, p, by decide, by decide⟩
      = .ok Secp256k1.generator := rfl
  obtain ⟨bytes, hbytes, hgenerator⟩ := hread hpoint true
  refine ⟨⟨bytes, hbytes, hgenerator, (hwritten hgenerator).2.1⟩, ?_, ?_, ?_, ?_⟩
  · rw [hcompressed (.inr rfl) (by decide)]
    rintro ⟨hlt, -⟩
    revert hlt
    decide +kernel
  · rw [hfull (by decide)]
    rintro ⟨-, -, hequation⟩
    revert hequation
    decide +kernel
  · exact hvalue (.compressed (.inr rfl) (by decide))
  · apply hformat
    rintro ⟨-, hlength⟩
    simp at hlength

end Point

end CoinSpend
