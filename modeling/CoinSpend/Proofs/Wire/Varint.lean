import CoinSpend.Proofs.Wire.Forms
import CoinSpend.Wire.Reader
import Mathlib

/-!
# The forms of a count

The first byte of a count is the number itself or a marker, which announces how many bytes of the
number follow. So there is at most one form of a number for each length, and a small number has
several. What is written is the shortest of them.

Results:
* `Varint.reads_iff`: what is read as a number.
* `Varint.IsForm.eq_of_length_eq`, `Varint.IsForm.length_encode_le`: the form that is written is the
  shortest, and the only one of its length.
* `Reads.varint`, `Reads.varint_shortens`: reading of what was written, and writing of what was
  read.
* `Varint.read_encode_shortest`: both for every number of 64 bits.
-/

namespace CoinSpend

namespace Varint

/-- The byte announces so many bytes of a number. -/
inductive Marks : UInt8 → ℕ → Prop
  | two : Marks 0xfd 2
  | four : Marks 0xfe 4
  | eight : Marks 0xff 8

/-- The bytes are read as the number. -/
inductive IsForm (value : ℕ) : Bytes → Prop
  /-- A byte that is no marker is the number itself. -/
  | single {first : UInt8} (hfirst : first.toNat = value) (hvalue : value < 0xfd) :
    IsForm value [first]
  /-- Behind a marker the number has as many bytes as announced, least significant first. -/
  | marked {width : ℕ} {marker : UInt8} (hmarker : Marks marker width)
    (hvalue : value < 256 ^ width) : IsForm value (marker :: Bytes.ofNatLE width value)

variable {value width : ℕ} {first marker marker' : UInt8} {bytes form form' : Bytes}

/-! ## The first byte -/

theorem Marks.unique (h : Marks marker width) (h' : Marks marker' width) : marker = marker' := by
  cases h <;> cases h' <;> rfl

theorem Marks.length_ne_one (h : Marks marker width) (value : ℕ) :
    (marker :: Bytes.ofNatLE width value).length ≠ 1 := by
  rw [List.length_cons, Bytes.length_ofNatLE]
  cases h <;> decide

theorem Marks.pow_width_le (h : Marks marker width) : 256 ^ width ≤ 2 ^ 64 := by
  cases h <;> decide

theorem lt_or_marks (first : UInt8) : first.toNat < 0xfd ∨ ∃ width, Marks first width := by
  have hbyte := first.toNat_lt
  rcases Nat.lt_or_ge first.toNat 0xfd with hlow | hhigh
  · exact .inl hlow
  · right
    have hmarker : first = 0xfd ∨ first = 0xfe ∨ first = 0xff := by
      simp only [← UInt8.toNat_inj, UInt8.reduceToNat]
      omega
    rcases hmarker with rfl | rfl | rfl
    · exact ⟨2, .two⟩
    · exact ⟨4, .four⟩
    · exact ⟨8, .eight⟩

/-- Reads what stands behind the first byte. -/
def readBehind (first : UInt8) : Reader ℕ :=
  if first = 0xfd then Reader.number 2
  else if first = 0xfe then Reader.number 4
  else if first = 0xff then Reader.number 8
  else return first.toNat

theorem read_eq : read = Reader.byte >>= readBehind := rfl

theorem Marks.readBehind_eq (h : Marks marker width) : readBehind marker = Reader.number width := by
  cases h <;> rfl

theorem readBehind_of_lt (h : first.toNat < 0xfd) : readBehind first = pure first.toNat := by
  have hne : ∀ marker : UInt8, 0xfd ≤ marker.toNat → first ≠ marker := by
    rintro marker hle rfl
    omega
  rw [readBehind, if_neg (hne _ (by decide)), if_neg (hne _ (by decide)),
    if_neg (hne _ (by decide))]

instance faithful_readBehind (first : UInt8) : Faithful (readBehind first) := by
  unfold readBehind
  infer_instance

instance faithful_read : Faithful read :=
  inferInstanceAs (Faithful (Reader.byte >>= readBehind))

/-! ## What is read -/

theorem IsForm.reads (h : IsForm value bytes) : Reads read bytes value := by
  rw [read_eq]
  cases h with
  | @single first hfirst hvalue =>
    have hbehind : Reads (readBehind first) [] value := by
      rw [readBehind_of_lt (hfirst ▸ hvalue), hfirst]
      exact .pure value
    exact (Reads.byte first).bind hbehind
  | @marked width marker hmarker hvalue =>
    have hbehind : Reads (readBehind marker) (Bytes.ofNatLE width value) value := by
      rw [hmarker.readBehind_eq]
      exact .number hvalue
    exact (Reads.byte marker).bind hbehind

/-- What is read as a number are its forms. -/
theorem reads_iff : Reads read bytes value ↔ IsForm value bytes := by
  refine ⟨fun h => ?_, IsForm.reads⟩
  rw [read_eq] at h
  obtain ⟨first, as, bs, hfirst, hbehind, rfl⟩ := Reads.bind_iff.mp h
  obtain rfl := Reads.byte_iff.mp hfirst
  rcases lt_or_marks first with hlow | ⟨width, hmarker⟩
  · rw [readBehind_of_lt hlow] at hbehind
    obtain ⟨rfl, rfl⟩ := Reads.pure_iff.mp hbehind
    exact .single rfl hlow
  · rw [hmarker.readBehind_eq] at hbehind
    obtain ⟨hvalue, rfl⟩ := Reads.number_iff.mp hbehind
    exact .marked hmarker hvalue

theorem IsForm.lt (h : IsForm value form) : value < 2 ^ 64 := by
  cases h with
  | single _ hvalue => omega
  | marked hmarker hvalue => exact hvalue.trans_le hmarker.pow_width_le

/-- The length of a form decides whether there is a marker, and which. -/
theorem IsForm.eq_of_length_eq (h : IsForm value form) (h' : IsForm value form')
    (hlength : form.length = form'.length) : form = form' := by
  cases h with
  | single hfirst =>
    cases h' with
    | single hfirst' => rw [UInt8.toNat_inj.mp (hfirst.trans hfirst'.symm)]
    | marked hmarker => exact absurd hlength.symm (hmarker.length_ne_one value)
  | marked hmarker =>
    cases h' with
    | single => exact absurd hlength (hmarker.length_ne_one value)
    | marked hmarker' =>
      simp only [List.length_cons, Bytes.length_ofNatLE, Nat.add_right_cancel_iff] at hlength
      subst hlength
      rw [hmarker.unique hmarker']

/-! ## What is written -/

theorem isForm_encode (h : value < 2 ^ 64) : IsForm value (encode value) := by
  unfold encode
  split_ifs with hsingle htwo hfour
  · have hfirst : (UInt8.ofNat value).toNat = value := by
      rw [UInt8.toNat_ofNat']
      omega
    exact .single hfirst hsingle
  · exact .marked .two htwo
  · exact .marked .four hfour
  · exact .marked .eight h

theorem length_encode (value : ℕ) : (encode value).length =
    if value < 0xfd then 1 else if value < 0x10000 then 3
      else if value < 0x100000000 then 5 else 9 := by
  unfold encode
  split_ifs <;> simp

/-- The greater of two numbers is not written in fewer bytes. -/
theorem length_encode_mono {a b : ℕ} (h : a ≤ b) : (encode a).length ≤ (encode b).length := by
  rw [length_encode, length_encode]
  split_ifs <;> omega

theorem length_encode_pos (value : ℕ) : 0 < (encode value).length :=
  length_encode_mono (Nat.zero_le value)

/-- No form of a number is shorter than what is written for it. -/
theorem IsForm.length_encode_le (h : IsForm value form) : (encode value).length ≤ form.length := by
  rw [length_encode]
  cases h with
  | single _ hvalue => rw [if_pos hvalue, List.length_singleton]
  | marked hmarker hvalue =>
    rw [List.length_cons, Bytes.length_ofNatLE]
    cases hmarker <;> split_ifs <;> omega

/-- Only the form of zero starts with a zero byte. -/
theorem getElem?_encode_iff : (encode value)[0]? = some 0 ↔ value = 0 := by
  unfold encode
  split_ifs with hone
  · rw [Bytes.ofNatLE, List.getElem?_cons_zero, Option.some.injEq, ← UInt8.toNat_inj,
      UInt8.toNat_ofNat']
    change value % 2 ^ 8 = 0 ↔ value = 0
    omega
  all_goals
    rw [List.getElem?_cons_zero, Option.some.injEq]
    exact iff_of_false (by decide) (by omega)

end Varint

/-! ## Reading and writing -/

namespace Reads

/-- A number below `2 ^ 64` is read back from its shortest form. -/
theorem varint {value : ℕ} (h : value < 2 ^ 64) : Reads Varint.read (Varint.encode value) value :=
  (Varint.isForm_encode h).reads

/-- A count that is read is a number below `2 ^ 64`, and is written in the shortest of its forms. -/
theorem varint_shortens {value : ℕ} {bytes : Bytes} (h : Reads Varint.read bytes value) :
    value < 2 ^ 64 ∧ Shortens (Varint.encode value) bytes := by
  have hform := Varint.reads_iff.mp h
  refine ⟨hform.lt, ?_⟩
  rcases hform.length_encode_le.eq_or_lt with heq | hlt
  · exact .inl ((Varint.isForm_encode hform.lt).eq_of_length_eq hform heq)
  · exact .inr hlt

end Reads

namespace Varint

/-- A number of 64 bits is read back from what is written for it, in front of any bytes and at any
place, and the reader stops right behind it. Whatever is read as a number is a form of it, and no
form is shorter than what is written; of the same length there is only what is written. What is
written for different numbers is different, and neither starts the other. -/
theorem read_encode_shortest :
    (∀ (value : UInt64) (rest : Bytes) (place : ℕ),
      read ⟨encode value.toNat ++ rest, place⟩ =
        .ok (value.toNat, ⟨rest, place + (encode value.toNat).length⟩)) ∧
    (∀ (bytes : Bytes) (place value : ℕ) (cursor : Cursor),
      read ⟨bytes, place⟩ = .ok (value, cursor) →
        ∃ taken ≤ bytes.length, cursor = ⟨bytes.drop taken, place + taken⟩ ∧
          value < 2 ^ 64 ∧ IsForm value (bytes.take taken) ∧ (encode value).length ≤ taken ∧
          (taken = (encode value).length ↔ bytes.take taken = encode value)) ∧
    ∀ value other : UInt64, value ≠ other →
      encode value.toNat ≠ encode other.toNat ∧ ¬ encode value.toNat <+: encode other.toNat := by
  refine ⟨fun value => Reads.varint value.toNat_lt, ?_, ?_⟩
  · rintro bytes place value ⟨rest, place'⟩ h
    obtain ⟨form, hread, rfl, rfl⟩ := Reads.apply_eq_ok_iff.mp h
    have hform := reads_iff.mp hread
    refine ⟨form.length, by simp, by rw [List.drop_left], hform.lt, ?_, hform.length_encode_le, ?_⟩
    · rw [List.take_left]
      exact hform
    · rw [List.take_left]
      exact ⟨hform.eq_of_length_eq (isForm_encode hform.lt), congrArg List.length⟩
  · intro value other hne
    have hstarts : ¬ encode value.toNat <+: encode other.toNat := by
      intro hstarts
      have hread := Reads.varint value.toNat_lt
      have hvalues := (hread.eq_of_isPrefix (.varint other.toNat_lt) hstarts).2
      exact hne (UInt64.toNat_inj.mp hvalues)
    exact ⟨fun heq => hstarts (heq ▸ List.prefix_rfl), hstarts⟩

/-- Two bytes are enough for 253, but four are read too. -/
theorem read_padded :
    read ⟨[0xfe, 0xfd, 0x00, 0x00, 0x00, 0xff], 7⟩ = .ok (253, ⟨[0xff], 12⟩) ∧
      IsForm 253 [0xfe, 0xfd, 0x00, 0x00, 0x00] ∧ (encode 253).length < 5 ∧
      (253 : UInt64) ≠ 0xfdfd ∧
      ¬ encode (253 : UInt64).toNat <+: encode (0xfdfd : UInt64).toNat := by
  have hread : read ⟨[0xfe, 0xfd, 0x00, 0x00, 0x00, 0xff], 7⟩ = .ok (253, ⟨[0xff], 12⟩) := by rfl
  have hne : (253 : UInt64) ≠ 0xfdfd := by decide
  obtain ⟨-, hforms, hdifferent⟩ := read_encode_shortest
  obtain ⟨taken, -, hcursor, -, hform, hle, hiff⟩ := hforms _ _ _ _ hread
  obtain rfl : taken = 5 := by
    have hplace := congrArg Cursor.position hcursor
    dsimp only at hplace
    omega
  have hlonger : ¬ 5 = (encode 253).length := fun heq => absurd (hiff.mp heq) (by decide)
  exact ⟨hread, hform, by omega, hne, (hdifferent _ _ hne).2⟩

end Varint

end CoinSpend
