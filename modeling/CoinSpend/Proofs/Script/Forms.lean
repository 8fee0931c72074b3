import CoinSpend.Proofs.Script.RoundTrip
import CoinSpend.Proofs.Wire.Varint
import Mathlib

/-!
# The forms of a script

Data may be pushed behind a longer header than they need. So an instruction has several forms, and a
script is read off the forms of its instructions one after another. Written, a script has the
shortest of its forms.

Results:
* `exists_form_or_cutShort`: what bytes start with.
* `decodeFrom_eq_ok_iff`: what a script is read off.
* `Instruction.IsForm.shortens`: the header that is written is the shortest.
* `reads_iff`, `writesShortest`: the forms of a script behind its length.
-/

namespace CoinSpend

namespace Instruction

/-- The bytes are read as the instruction: an opcode by itself, or data behind a header that tells
their length. -/
def IsForm : Instruction → Bytes → Prop
  | .op code, form => form = [code] ∧ Script.isPushHeader code = false
  | .push data, form => ∃ code field, form = code :: field ++ data ∧
      Script.isPushHeader code = true ∧ Script.fieldWidth code = field.length ∧
      (if field.length = 0 then code.toNat else Bytes.toNatLE field) = data.length

end Instruction

namespace Script

/-! ## Reading one instruction -/

/-- A form of an instruction is read as the instruction, in front of any bytes, at any place. -/
theorem decodeFrom_form {i : Instruction} {form : Bytes} (h : i.IsForm form) (place : ℕ)
    (rest : Bytes) : decodeFrom place (form ++ rest) =
      (decodeFrom (place + form.length) rest).map (i :: ·) := by
  cases i with
  | op code =>
    obtain ⟨rfl, hcode⟩ := h
    exact decodeFrom_op place rest hcode
  | push data =>
    obtain ⟨code, field, rfl, hcode, hfield, hdata⟩ := h
    exact decodeFrom_push place rest hcode hfield hdata

/-- Behind the header of a push the data are taken off, if they are all there. -/
theorem decodeFrom_header {code : UInt8} {field : Bytes} (place : ℕ) (body : Bytes)
    (hcode : isPushHeader code = true) (hfield : fieldWidth code = field.length) :
    decodeFrom place (code :: field ++ body) =
      let length := if field.length = 0 then code.toNat else Bytes.toNatLE field
      if body.length < length then .error (.pushPastEnd length)
      else (decodeFrom (place + 1 + field.length + length) (body.drop length)).map
        (.push (body.take length) :: ·) := by
  have hroom : ¬ (field ++ body).length < field.length := by simp
  rw [List.cons_append, decodeFrom, if_pos hcode]
  unfold fieldWidth at hfield
  simp only [hfield, if_neg hroom, List.take_left, List.drop_left]

/-- Bytes that start a push and end in its header or in its data. -/
inductive CutShort : Bytes → Prop
  /-- The length of the data is not all there. -/
  | header {code : UInt8} {field : Bytes} (hcode : isPushHeader code = true)
    (hfield : field.length < fieldWidth code) : CutShort (code :: field)
  /-- The data are not all there. -/
  | data {code : UInt8} {field body : Bytes} (hcode : isPushHeader code = true)
    (hfield : fieldWidth code = field.length)
    (hbody : body.length < if field.length = 0 then code.toNat else Bytes.toNatLE field) :
    CutShort (code :: field ++ body)

theorem CutShort.exists_error {bytes : Bytes} (h : CutShort bytes) (place : ℕ) :
    ∃ e, decodeFrom place bytes = .error e := by
  cases h with
  | header hcode hfield =>
    rw [decodeFrom, if_pos hcode]
    exact ⟨_, if_pos hfield⟩
  | data hcode hfield hbody =>
    rw [decodeFrom_header place _ hcode hfield]
    exact ⟨_, if_pos hbody⟩

/-- Bytes start with a form of an instruction, or they are a push that is cut short. -/
theorem exists_form_or_cutShort (code : UInt8) (bytes : Bytes) :
    (∃ (i : Instruction) (form rest : Bytes), i.IsForm form ∧ code :: bytes = form ++ rest) ∨
      CutShort (code :: bytes) := by
  cases hcode : isPushHeader code with
  | false => exact .inl ⟨.op code, [code], bytes, ⟨rfl, hcode⟩, rfl⟩
  | true =>
    rcases Nat.lt_or_ge bytes.length (fieldWidth code) with hroom | hroom
    · exact .inr (.header hcode hroom)
    obtain ⟨field, body, rfl, hfield⟩ : ∃ field body, bytes = field ++ body ∧
        fieldWidth code = field.length :=
      ⟨_, _, (List.take_append_drop (fieldWidth code) bytes).symm,
        (List.length_take_of_le hroom).symm⟩
    obtain ⟨length, hlength⟩ : ∃ length,
        (if field.length = 0 then code.toNat else Bytes.toNatLE field) = length := ⟨_, rfl⟩
    rcases Nat.lt_or_ge body.length length with hbody | hbody
    · exact .inr (.data hcode hfield (hlength ▸ hbody))
    · have hdata : (body.take length).length = length := List.length_take_of_le hbody
      refine .inl ⟨.push (body.take length), code :: field ++ body.take length, body.drop length,
        ⟨code, field, rfl, hcode, hfield, hlength.trans hdata.symm⟩, ?_⟩
      rw [List.append_assoc, List.take_append_drop, List.cons_append]

/-- What is read starts with an instruction of which the bytes start with a form. -/
theorem exists_form_of_decodeFrom {place : ℕ} {code : UInt8} {bytes : Bytes} {script : Script}
    (h : decodeFrom place (code :: bytes) = .ok script) :
    ∃ i form rest tail, i.IsForm form ∧ code :: bytes = form ++ rest ∧ script = i :: tail ∧
      decodeFrom (place + form.length) rest = .ok tail := by
  rcases exists_form_or_cutShort code bytes with ⟨i, form, rest, hform, hbytes⟩ | hcut
  · rw [hbytes, decodeFrom_form hform] at h
    obtain ⟨tail, htail, rfl⟩ := map_eq_ok_iff.mp h
    exact ⟨i, form, rest, tail, hform, hbytes, rfl, htail⟩
  · obtain ⟨e, he⟩ := hcut.exists_error place
    cases h.symm.trans he

/-- A script is read off exactly the forms of its instructions, one after another. -/
theorem decodeFrom_eq_ok_iff {place : ℕ} {bytes : Bytes} {script : Script} :
    decodeFrom place bytes = .ok script ↔
      ∃ forms, List.Forall₂ Instruction.IsForm script forms ∧ forms.flatten = bytes := by
  constructor
  · intro h
    induction script generalizing place bytes with
    | nil =>
      cases bytes with
      | nil => exact ⟨[], .nil, rfl⟩
      | cons code bytes =>
        obtain ⟨i, form, rest, tail, -, -, hcons, -⟩ := exists_form_of_decodeFrom h
        cases hcons
    | cons i script ih =>
      cases bytes with
      | nil =>
        rw [decodeFrom] at h
        cases h
      | cons code bytes =>
        obtain ⟨i, form, rest, tail, hform, hbytes, hcons, htail⟩ := exists_form_of_decodeFrom h
        cases hcons
        obtain ⟨forms, hforms, rfl⟩ := ih htail
        exact ⟨form :: forms, .cons hform hforms, hbytes.symm⟩
  · rintro ⟨forms, hforms, rfl⟩
    induction hforms generalizing place with
    | nil => rw [List.flatten_nil, decodeFrom]
    | cons hform _ ih =>
      rw [List.flatten_cons, decodeFrom_form hform, ih]
      rfl

/-! ## The shortest form -/

/-- A header of a push that announces the length of the data is not shorter than the one that is
written for them. -/
theorem pushHeader_shortens {code : UInt8} {field : Bytes} {length : ℕ}
    (hcode : isPushHeader code = true) (hfield : fieldWidth code = field.length)
    (hlength : (if field.length = 0 then code.toNat else Bytes.toNatLE field) = length) :
    Shortens (pushHeader length) (code :: field) := by
  have hfits := Bytes.toNatLE_lt field
  have hdigits := Bytes.ofNatLE_toNatLE field
  unfold fieldWidth at hfield
  unfold pushHeader directLimit Shortens
  split_ifs at hfield with hone htwo
  · rw [← hfield, if_neg (by decide)] at hlength
    rw [← hfield, hlength] at hfits hdigits
    rw [hone, hdigits, List.length_cons, ← hfield]
    split_ifs
    · exact .inr (by simp)
    · exact .inl rfl
    · omega
  · rw [← hfield, if_neg (by decide)] at hlength
    rw [← hfield, hlength] at hfits hdigits
    rw [htwo, hdigits, List.length_cons, ← hfield]
    split_ifs
    · exact .inr (by simp)
    · exact .inr (by simp)
    · exact .inl rfl
  · rw [← hfield, if_pos rfl] at hlength
    have hdirect : 1 ≤ code.toNat ∧ code.toNat ≤ 75 := by
      rw [isPushHeader, Bool.and_eq_true, decide_eq_true_eq, decide_eq_true_eq] at hcode
      simp only [UInt8.le_iff_toNat_le, ← UInt8.toNat_inj, Opcode.pushData1, Opcode.pushData2,
        UInt8.reduceToNat] at hcode hone htwo
      omega
    rw [← hlength, if_pos hdirect, UInt8.ofNat_toNat, List.length_eq_zero_iff.mp hfield.symm]
    exact .inl rfl

/-- An instruction is written in the shortest of its forms. -/
theorem encodeInstruction_shortens {i : Instruction} {form piece : Bytes} (hform : i.IsForm form)
    (h : encodeInstruction i = .ok piece) : Shortens piece form := by
  cases i with
  | op code =>
    obtain ⟨rfl, hcode⟩ := hform
    rw [encodeInstruction, if_neg (by rw [hcode]; decide)] at h
    cases h
    exact .refl [code]
  | push data =>
    obtain ⟨code, field, rfl, hcode, hfield, hdata⟩ := hform
    rw [encodeInstruction] at h
    split at h
    · cases h
      exact (pushHeader_shortens hcode hfield hdata).append (.refl data)
    · cases h

/-- A script is written in the shortest of its forms. -/
theorem encode_shortens {script : Script} {bytes written : Bytes}
    (h : decode bytes = .ok script) (hwritten : script.encode = .ok written) :
    Shortens written bytes := by
  obtain ⟨forms, hforms, rfl⟩ := decodeFrom_eq_ok_iff.mp h
  obtain ⟨pieces, hpieces, rfl⟩ := encode_eq_ok_iff.mp hwritten
  exact Shortens.flatten hforms hpieces fun _ _ _ => encodeInstruction_shortens

/-- Of the instructions that are read only a push that is too long has no written form. -/
theorem not_writable_iff_of_decode {script : Script} {bytes : Bytes}
    (h : decode bytes = .ok script) {i : Instruction} (hi : i ∈ script) :
    ¬ i.Writable ↔ ∃ data, i = .push data ∧ 520 < data.length := by
  obtain ⟨forms, hforms, rfl⟩ := decodeFrom_eq_ok_iff.mp h
  obtain ⟨form, hform⟩ := exists_of_forall₂ hforms i hi
  cases i with
  | op code =>
    obtain ⟨-, hcode⟩ := hform
    simp [Instruction.Writable, hcode]
  | push data => simp [Instruction.Writable, pushLimit]

/-! ## Behind the length -/

instance faithful_read : Faithful read :=
  inferInstanceAs (Faithful (Varint.read >>= fun length =>
    Reader.bytes length >>= fun body => liftM (decode body)))

/-- Behind its length a script has the forms that it has by itself. -/
theorem reads_iff {script : Script} {bytes : Bytes} :
    Reads read bytes script ↔ ∃ length body, Reads Varint.read length body.length ∧
      decode body = .ok script ∧ length ++ body = bytes := by
  unfold read
  rw [Reads.bind_iff]
  simp only [Reads.bindLift_iff, Reads.bytes_iff]
  constructor
  · rintro ⟨n, length, body, hlength, ⟨_, ⟨rfl, rfl⟩, hbody⟩, rfl⟩
    exact ⟨length, body, hlength, hbody, rfl⟩
  · rintro ⟨length, body, hlength, hbody, rfl⟩
    exact ⟨body.length, length, body, hlength, ⟨body, ⟨rfl, rfl⟩, hbody⟩, rfl⟩

theorem writesShortest : WritesShortest read encodeSized := by
  intro script bytes written hread hwritten
  obtain ⟨length, body, hlength, hbody, rfl⟩ := reads_iff.mp hread
  obtain ⟨body', hbody', rfl⟩ := encodeSized_eq_ok_iff.mp hwritten
  obtain ⟨hfits, hshortest⟩ := hlength.varint_shortens
  have hbodies := encode_shortens hbody hbody'
  have hle := hbodies.length_le
  refine ⟨reads_iff.mpr ⟨_, body', .varint (by omega), decode_of_encode hbody', rfl⟩, ?_⟩
  rcases hbodies with rfl | hlt
  · exact hshortest.append (.refl body')
  · right
    have hlengths := (Varint.length_encode_mono hle).trans hshortest.length_le
    simp only [List.length_append]
    omega

end Script

end CoinSpend
