import CoinSpend.Proofs.Wire.Varint
import CoinSpend.Script.Codec
import Mathlib

/-!
# Reading written scripts

A written instruction is read back as itself in front of any other bytes, whichever of the three
headers a push has. Hence a written script is read back, with or without its length in front.

Results:
* `decodeFrom_encodeInstruction`: the reading of one instruction.
* `decode_of_encode`, `reads_of_encodeSized`: the reading of a script.
* `exists_encode_iff`: which scripts can be written.
-/

namespace CoinSpend

namespace Instruction

/-- Whether the instruction has a written form: a push is not too long, and an opcode is not the
header of a push. -/
def Writable : Instruction → Prop
  | .op code => Script.isPushHeader code = false
  | .push data => data.length ≤ Script.pushLimit

/-- An instruction has no written form if it is a push of more than 520 bytes or a byte that heads
a push. -/
theorem not_writable_iff {i : Instruction} :
    ¬ i.Writable ↔ (∃ data, i = .push data ∧ 520 < data.length) ∨
      ∃ code, i = .op code ∧ 0x01 ≤ code ∧ code ≤ 0x4d := by
  cases i with
  | op code => simp [Writable, Script.isPushHeader]
  | push data => simp [Writable, Script.pushLimit]

end Instruction

namespace Script

/-! ## One instruction -/

/-- How many bytes the header of a push has for the length, besides the code. -/
def fieldWidth (code : UInt8) : ℕ :=
  if code = Opcode.pushData1 then 1 else if code = Opcode.pushData2 then 2 else 0

/-- A push is read off behind its header, if the header tells the length of the data. -/
theorem decodeFrom_push {code : UInt8} {field data : Bytes} (place : ℕ) (rest : Bytes)
    (hcode : isPushHeader code = true) (hfield : fieldWidth code = field.length)
    (hdata : (if field.length = 0 then code.toNat else Bytes.toNatLE field) = data.length) :
    decodeFrom place (code :: field ++ data ++ rest) =
      (decodeFrom (place + (code :: field ++ data).length) rest).map (.push data :: ·) := by
  have hplace : place + 1 + field.length + data.length =
      place + (code :: field ++ data).length := by
    simp only [List.cons_append, List.length_cons, List.length_append]
    omega
  have hroom : ¬ (field ++ (data ++ rest)).length < field.length := by simp
  have hbody : ¬ (data ++ rest).length < data.length := by simp
  rw [← hplace, List.append_assoc, List.cons_append, decodeFrom, if_pos hcode]
  unfold fieldWidth at hfield
  simp only [hfield, if_neg hroom, List.take_left, List.drop_left, hdata, if_neg hbody]

theorem decodeFrom_op {code : UInt8} (place : ℕ) (rest : Bytes)
    (hcode : isPushHeader code = false) :
    decodeFrom place (code :: rest) = (decodeFrom (place + 1) rest).map (.op code :: ·) := by
  rw [decodeFrom, if_neg (by rw [hcode]; decide)]

/-- The header of a push that is not too long tells its length. -/
theorem decodeFrom_pushHeader {data : Bytes} (place : ℕ) (rest : Bytes)
    (hdata : data.length ≤ pushLimit) :
    decodeFrom place (pushHeader data.length ++ data ++ rest) =
      (decodeFrom (place + (pushHeader data.length ++ data).length) rest).map
        (.push data :: ·) := by
  unfold pushLimit at hdata
  unfold pushHeader directLimit
  split
  · next hdirect =>
    have hcode : (UInt8.ofNat data.length).toNat = data.length := by
      rw [UInt8.toNat_ofNat']
      omega
    have hother : ∀ code : UInt8, 75 < code.toNat → UInt8.ofNat data.length ≠ code := by
      rintro code hlt rfl
      omega
    have hheader : isPushHeader (UInt8.ofNat data.length) = true := by
      rw [isPushHeader, Bool.and_eq_true, decide_eq_true_eq, decide_eq_true_eq,
        UInt8.le_iff_toNat_le, UInt8.le_iff_toNat_le, hcode]
      change 1 ≤ data.length ∧ data.length ≤ 77
      omega
    have hfield : fieldWidth (UInt8.ofNat data.length) = ([] : Bytes).length := by
      rw [fieldWidth, if_neg (hother _ (by decide)), if_neg (hother _ (by decide))]
      rfl
    exact decodeFrom_push place rest hheader hfield hcode
  · split
    · next hshort =>
      refine decodeFrom_push place rest rfl (by rw [Bytes.length_ofNatLE]; rfl) ?_
      rw [Bytes.length_ofNatLE, if_neg (by decide), Bytes.toNatLE_ofNatLE,
        Nat.mod_eq_of_lt (by omega)]
    · refine decodeFrom_push place rest rfl (by rw [Bytes.length_ofNatLE]; rfl) ?_
      rw [Bytes.length_ofNatLE, if_neg (by decide), Bytes.toNatLE_ofNatLE,
        Nat.mod_eq_of_lt (by omega)]

/-- A written instruction is read back in front of any bytes, at any place. -/
theorem decodeFrom_encodeInstruction {i : Instruction} {bytes : Bytes}
    (h : encodeInstruction i = .ok bytes) (place : ℕ) (rest : Bytes) :
    decodeFrom place (bytes ++ rest) =
      (decodeFrom (place + bytes.length) rest).map (i :: ·) := by
  cases i with
  | op code =>
    rw [encodeInstruction] at h
    split at h
    · simp at h
    · next hcode =>
      cases h
      exact decodeFrom_op place rest (Bool.eq_false_of_not_eq_true hcode)
  | push data =>
    rw [encodeInstruction] at h
    split at h
    · next hdata =>
      cases h
      exact decodeFrom_pushHeader place rest hdata
    · simp at h

/-! ## Whole scripts -/

theorem encode_eq_ok_iff {script : Script} {bytes : Bytes} :
    script.encode = .ok bytes ↔
      ∃ pieces, List.Forall₂ (fun i piece => encodeInstruction i = .ok piece) script pieces ∧
        pieces.flatten = bytes := by
  unfold encode
  rw [bind_eq_ok_iff]
  simp only [mapM_eq_ok_iff, pure, Except.pure, Except.ok.injEq]

theorem decodeFrom_flatten {script : Script} {pieces : List Bytes}
    (h : List.Forall₂ (fun i piece => encodeInstruction i = .ok piece) script pieces)
    (place : ℕ) : decodeFrom place pieces.flatten = .ok script := by
  induction h generalizing place with
  | nil => rw [List.flatten_nil, decodeFrom]
  | cons hhead _ ih =>
    rw [List.flatten_cons, decodeFrom_encodeInstruction hhead, ih]
    rfl

/-- A written script is read back. -/
theorem decode_of_encode {script : Script} {bytes : Bytes} (h : script.encode = .ok bytes) :
    decode bytes = .ok script := by
  obtain ⟨pieces, hpieces, rfl⟩ := encode_eq_ok_iff.mp h
  exact decodeFrom_flatten hpieces 0

theorem encodeSized_eq_ok_iff {script : Script} {bytes : Bytes} :
    script.encodeSized = .ok bytes ↔
      ∃ body, script.encode = .ok body ∧ Varint.encode body.length ++ body = bytes := by
  unfold encodeSized
  rw [bind_eq_ok_iff]
  simp only [pure, Except.pure, Except.ok.injEq]

/-- A script that is written with its length in front is read back in front of any bytes. -/
theorem reads_of_encodeSized {script : Script} {bytes : Bytes}
    (h : script.encodeSized = .ok bytes) (hlength : bytes.length < 2 ^ 64) :
    Reads read bytes script := by
  obtain ⟨body, hbody, rfl⟩ := encodeSized_eq_ok_iff.mp h
  rw [List.length_append] at hlength
  have hsize : body.length < 2 ^ 64 := by omega
  exact (Reads.varint hsize).bind ((Reads.bytes body).bindLift (decode_of_encode hbody))

/-- A script can be written exactly if each of its instructions can. -/
theorem exists_encode_iff {script : Script} :
    (∃ bytes, script.encode = .ok bytes) ↔ ∀ i ∈ script, i.Writable := by
  have hinstruction : ∀ i, (∃ bytes, encodeInstruction i = .ok bytes) ↔ i.Writable := by
    intro i
    rw [encodeInstruction_eq_ok_iff]
    rfl
  simp only [← hinstruction, ← exists_mapM_eq_ok_iff, encode_eq_ok_iff, mapM_eq_ok_iff]
  exact exists_image_iff

theorem exists_encodeSized_iff {script : Script} :
    (∃ bytes, script.encodeSized = .ok bytes) ↔ ∀ i ∈ script, i.Writable := by
  simp only [← exists_encode_iff, encodeSized_eq_ok_iff]
  exact exists_image_iff

end Script

end CoinSpend
