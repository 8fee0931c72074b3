import CoinSpend.Proofs.Script.Forms
import Mathlib

/-!
# Scripts in their shortest form

The first byte of an instruction decides whether it is a push and how far its header goes, so bytes
that are read as a script fall apart into forms of its instructions in one way only. They are what
would be written exactly if each push among them has the shortest header for its data. Bytes that
are not read as a script end inside a push.

Results:
* `Instruction.IsForm.eq_of_cons`, `Instruction.forms_unique`: bytes fall apart in one way.
* `Script.encode_eq_iff`: which bytes are what is written.
* `Script.exists_decodeFrom_error_iff`: which bytes are not read.
* `Script.encode_decode_shortest`: writing and reading of scripts.
-/

namespace CoinSpend

/-! ## Shortest headers -/

/-- The first byte of the shortest header for data of a given length. -/
inductive ShortestHeader : ℕ → UInt8 → Prop
  /-- Up to 75 bytes are headed by their length. -/
  | direct {length : ℕ} {code : UInt8} (hcode : code.toNat = length) (hlow : 1 ≤ length)
    (hhigh : length ≤ 75) : ShortestHeader length code
  /-- No data, and data of 76 to 255 bytes, have their length in one byte. -/
  | one {length : ℕ} (h : length = 0 ∨ 76 ≤ length ∧ length ≤ 255) :
    ShortestHeader length Opcode.pushData1
  /-- Data of 256 to 520 bytes have their length in two bytes. -/
  | two {length : ℕ} (hlow : 256 ≤ length) (hhigh : length ≤ 520) :
    ShortestHeader length Opcode.pushData2

theorem ShortestHeader.unique {length : ℕ} {code code' : UInt8} (h : ShortestHeader length code)
    (h' : ShortestHeader length code') : code = code' := by
  cases h with
  | direct hcode hlow hhigh =>
    cases h' with
    | direct hcode' => exact UInt8.toNat_inj.mp (hcode.trans hcode'.symm)
    | one => omega
    | two => omega
  | one =>
    cases h' with
    | direct => omega
    | one => rfl
    | two => omega
  | two =>
    cases h' with
    | direct => omega
    | one => omega
    | two => rfl

/-- The header that is written is the shortest. -/
theorem exists_pushHeader_eq_cons {length : ℕ} (h : length ≤ 520) :
    ∃ code field, Script.pushHeader length = code :: field ∧ ShortestHeader length code := by
  unfold Script.pushHeader Script.directLimit
  split_ifs with hdirect hshort
  · have hcode : (UInt8.ofNat length).toNat = length := by
      rw [UInt8.toNat_ofNat']
      omega
    exact ⟨_, _, rfl, .direct hcode hdirect.1 hdirect.2⟩
  · exact ⟨_, _, rfl, .one (by omega)⟩
  · exact ⟨_, _, rfl, .two (by omega) h⟩

/-! ## The forms of an instruction -/

namespace Instruction

/-- A push starts with the shortest header for its data. -/
def HasShortestHeader : Instruction → Bytes → Prop
  | .op _, _ => True
  | .push data, form => ∃ code rest, form = code :: rest ∧ ShortestHeader data.length code

variable {i : Instruction} {form piece : Bytes}

/-- A form of an instruction is told by its first byte. -/
theorem IsForm.eq_of_cons {code : UInt8} {as bs : Bytes} (ha : i.IsForm (code :: as))
    (hb : i.IsForm (code :: bs)) : as = bs := by
  cases i with
  | op code' =>
    obtain ⟨ha, -⟩ := ha
    obtain ⟨hb, -⟩ := hb
    cases ha
    cases hb
    rfl
  | push data =>
    obtain ⟨_, field, ha, -, hfield, hdata⟩ := ha
    obtain ⟨_, field', hb, -, hfield', hdata'⟩ := hb
    cases ha
    cases hb
    have hwidth : field.length = field'.length := hfield.symm.trans hfield'
    have hvalue : field = field' := by
      by_cases hnone : field.length = 0
      · rw [List.eq_nil_of_length_eq_zero hnone,
          List.eq_nil_of_length_eq_zero (hwidth.symm.trans hnone)]
      · rw [if_neg hnone] at hdata
        rw [if_neg (hwidth ▸ hnone)] at hdata'
        rw [← Bytes.ofNatLE_toNatLE field, ← Bytes.ofNatLE_toNatLE field', hwidth, hdata, hdata']
    rw [hvalue]

theorem IsForm.ne_nil (h : i.IsForm form) : form ≠ [] := by
  rintro rfl
  cases i with
  | op code => cases h.1
  | push data =>
    obtain ⟨code, field, hform, -⟩ := h
    cases hform

/-- Of bytes that start with a form of an instruction, no more and no less is one. -/
theorem IsForm.eq_of_append {form' rest rest' : Bytes} (h : i.IsForm form) (h' : i.IsForm form')
    (heq : form ++ rest = form' ++ rest') : form = form' ∧ rest = rest' := by
  obtain ⟨code, as, rfl⟩ := List.exists_cons_of_ne_nil h.ne_nil
  obtain ⟨code', bs, rfl⟩ := List.exists_cons_of_ne_nil h'.ne_nil
  obtain rfl : code = code' := (List.cons.inj heq).1
  obtain rfl : as = bs := h.eq_of_cons h'
  exact ⟨rfl, List.append_cancel_left heq⟩

/-- Bytes fall apart into forms of given instructions in one way only. -/
theorem forms_unique {script : Script} {forms forms' : List Bytes}
    (h : List.Forall₂ IsForm script forms) (h' : List.Forall₂ IsForm script forms')
    (heq : forms.flatten = forms'.flatten) : forms = forms' := by
  induction h generalizing forms' with
  | nil =>
    cases h'
    rfl
  | cons hform _ ih =>
    obtain ⟨form', forms', hform', hforms', rfl⟩ := List.forall₂_cons_left_iff.mp h'
    rw [List.flatten_cons, List.flatten_cons] at heq
    obtain ⟨rfl, hrest⟩ := hform.eq_of_append hform' heq
    rw [ih hforms' hrest]

end Instruction

namespace Script

/-! ## What is written -/

variable {i : Instruction} {form piece bytes written : Bytes} {script : Script}

/-- A script has no more instructions than the bytes that it is read off. -/
theorem length_le_length_of_decode (h : decode bytes = .ok script) :
    script.length ≤ bytes.length := by
  obtain ⟨forms, hforms, rfl⟩ := decodeFrom_eq_ok_iff.mp h
  clear h
  induction hforms with
  | nil => exact Nat.le_refl _
  | cons hform _ ih =>
    have hpos := List.length_pos_iff.mpr hform.ne_nil
    rw [List.flatten_cons, List.length_append, List.length_cons]
    omega

/-- What is written for an instruction is a form of it. -/
theorem isForm_of_encodeInstruction (h : encodeInstruction i = .ok piece) : i.IsForm piece := by
  have hread := decodeFrom_encodeInstruction h 0 []
  rw [List.append_nil, decodeFrom] at hread
  obtain ⟨forms, hforms, rfl⟩ := decodeFrom_eq_ok_iff.mp hread
  obtain ⟨form, _, hform, hnil, rfl⟩ := List.forall₂_cons_left_iff.mp hforms
  cases hnil
  rw [List.flatten_cons, List.flatten_nil, List.append_nil]
  exact hform

/-- A form of an instruction is what is written for it if its header is the shortest. -/
theorem encodeInstruction_eq_iff (hform : i.IsForm form) (h : encodeInstruction i = .ok piece) :
    piece = form ↔ i.HasShortestHeader form := by
  have hpiece := isForm_of_encodeInstruction h
  cases i with
  | op code =>
    obtain ⟨rfl, -⟩ := hform
    obtain ⟨rfl, -⟩ := hpiece
    exact iff_of_true rfl trivial
  | push data =>
    rw [encodeInstruction] at h
    split at h
    · next hlength =>
      cases h
      obtain ⟨code, field, hheader, hshortest⟩ := exists_pushHeader_eq_cons hlength
      rw [hheader] at hpiece ⊢
      constructor
      · rintro rfl
        exact ⟨code, field ++ data, rfl, hshortest⟩
      · rintro ⟨code', rest, rfl, hshortest'⟩
        obtain rfl : code = code' := hshortest.unique hshortest'
        exact congrArg (code :: ·) (hpiece.eq_of_cons hform)
    · cases h

/-- Bytes that are read as a script are what is written for it if each of their pushes has the
shortest header. -/
theorem encode_eq_iff {forms : List Bytes} (hforms : List.Forall₂ Instruction.IsForm script forms)
    (h : script.encode = .ok written) :
    written = forms.flatten ↔
      List.Forall₂ Instruction.HasShortestHeader script forms := by
  obtain ⟨pieces, hpieces, rfl⟩ := encode_eq_ok_iff.mp h
  have hsame : pieces.flatten = forms.flatten ↔ pieces = forms :=
    ⟨Instruction.forms_unique (hpieces.imp fun _ _ => isForm_of_encodeInstruction) hforms,
      fun heq => by rw [heq]⟩
  rw [hsame]
  clear h hsame
  induction hforms generalizing pieces with
  | nil =>
    cases hpieces
    simp
  | cons hform _ ih =>
    obtain ⟨piece, pieces, hpiece, hrest, rfl⟩ := List.forall₂_cons_left_iff.mp hpieces
    rw [List.cons.injEq, List.forall₂_cons]
    exact and_congr (encodeInstruction_eq_iff hform hpiece) (ih pieces hrest)

/-! ## What is not read -/

/-- Bytes consist of forms of instructions, behind which a push may be cut short. -/
theorem exists_forms (bytes : Bytes) : ∃ (script : Script) (forms : List Bytes) (tail : Bytes),
    List.Forall₂ Instruction.IsForm script forms ∧ (tail = [] ∨ CutShort tail) ∧
      forms.flatten ++ tail = bytes := by
  induction hlength : bytes.length using Nat.strong_induction_on generalizing bytes with
  | _ length ih =>
    cases bytes with
    | nil => exact ⟨[], [], [], .nil, .inl rfl, rfl⟩
    | cons code bytes =>
      rcases exists_form_or_cutShort code bytes with ⟨i, form, rest, hform, hbytes⟩ | hcut
      · have hshorter : rest.length < length := by
          have hpos := List.length_pos_iff.mpr hform.ne_nil
          rw [← hlength, hbytes, List.length_append]
          omega
        obtain ⟨script, forms, tail, hforms, htail, hrest⟩ := ih _ hshorter rest rfl
        refine ⟨i :: script, form :: forms, tail, .cons hform hforms, htail, ?_⟩
        rw [List.flatten_cons, List.append_assoc, hrest, hbytes]
      · exact ⟨[], [], code :: bytes, .nil, .inr hcut, rfl⟩

/-- Bytes that are not read consist of forms of instructions, behind which a push is cut short. -/
theorem exists_decodeFrom_error_iff {place : ℕ} :
    (∃ e, decodeFrom place bytes = .error e) ↔ ∃ script forms tail,
      List.Forall₂ Instruction.IsForm script forms ∧ CutShort tail ∧
        forms.flatten ++ tail = bytes := by
  constructor
  · rintro ⟨e, he⟩
    obtain ⟨script, forms, tail, hforms, rfl | hcut, hbytes⟩ := exists_forms bytes
    · rw [List.append_nil] at hbytes
      cases he.symm.trans (decodeFrom_eq_ok_iff.mpr ⟨forms, hforms, hbytes⟩)
    · exact ⟨script, forms, tail, hforms, hcut, hbytes⟩
  · rintro ⟨script, forms, tail, hforms, hcut, rfl⟩
    induction hforms generalizing place with
    | nil => exact hcut.exists_error place
    | @cons _ form _ _ hform _ ih =>
      obtain ⟨e, he⟩ := @ih (place + form.length)
      rw [List.flatten_cons, List.append_assoc, decodeFrom_form hform, he]
      exact ⟨e, rfl⟩

/-! ## Writing and reading -/

theorem isPushHeader_eq_false_iff {code : UInt8} :
    isPushHeader code = false ↔ ¬ (0x01 ≤ code ∧ code ≤ 0x4d) := by
  simp [isPushHeader]

/-- Every instruction can be written if no push is too long and no opcode heads a push. -/
theorem writable_iff : (∀ i ∈ script, i.Writable) ↔
    (∀ data, .push data ∈ script → data.length ≤ 520) ∧
      ∀ code, .op code ∈ script → ¬ (0x01 ≤ code ∧ code ≤ 0x4d) := by
  constructor
  · intro h
    exact ⟨fun data hdata => h _ hdata,
      fun code hcode => isPushHeader_eq_false_iff.mp (h _ hcode)⟩
  · rintro ⟨hpush, hop⟩ i hi
    cases i with
    | op code => exact isPushHeader_eq_false_iff.mpr (hop code hi)
    | push data => exact hpush data hi

/-- A script can be written exactly if it has no push of more than 520 bytes and no opcode that
heads a push, and what is written is read back as the script. A script that was read has no such
opcode. What is written for it, unless it has such a push, is the shortest byte string that is read
as it. The bytes that it was read off fall apart into forms of its instructions in one way only, and
they are what is written exactly if all their pushes have the shortest headers. Bytes are not read
as a script exactly if, behind forms of instructions, a push is cut short in its header or in its
data. -/
theorem encode_decode_shortest :
    (∀ script : Script,
      ((∃ bytes, script.encode = .ok bytes) ↔
        (∀ data, .push data ∈ script → data.length ≤ 520) ∧
          ∀ code, .op code ∈ script → ¬ (0x01 ≤ code ∧ code ≤ 0x4d)) ∧
      ∀ bytes, script.encode = .ok bytes → decode bytes = .ok script) ∧
    (∀ (bytes : Bytes) (script : Script), decode bytes = .ok script →
      (∀ code, .op code ∈ script → ¬ (0x01 ≤ code ∧ code ≤ 0x4d)) ∧
      ((∃ e, script.encode = .error e) ↔ ∃ data, .push data ∈ script ∧ 520 < data.length) ∧
      ∀ written, script.encode = .ok written →
        decode written = .ok script ∧
        (∀ other, decode other = .ok script → other = written ∨ written.length < other.length) ∧
        ∃ forms, List.Forall₂ Instruction.IsForm script forms ∧ forms.flatten = bytes ∧
          (∀ others, List.Forall₂ Instruction.IsForm script others → others.flatten = bytes →
            others = forms) ∧
          (written = bytes ↔ List.Forall₂ Instruction.HasShortestHeader script forms)) ∧
    ∀ bytes, (∃ e, decode bytes = .error e) ↔
      ∃ (script : Script) (forms : List Bytes) (tail : Bytes),
        List.Forall₂ Instruction.IsForm script forms ∧ CutShort tail ∧
          forms.flatten ++ tail = bytes := by
  refine ⟨fun script => ⟨?_, fun bytes h => decode_of_encode h⟩, ?_, fun bytes => ?_⟩
  · rw [exists_encode_iff, writable_iff]
  · intro bytes script h
    obtain ⟨forms, hforms, rfl⟩ := decodeFrom_eq_ok_iff.mp h
    have hop : ∀ code, .op code ∈ script → ¬ (0x01 ≤ code ∧ code ≤ 0x4d) := by
      intro code hcode
      obtain ⟨_, -, hheader⟩ := exists_of_forall₂ hforms (.op code) hcode
      exact isPushHeader_eq_false_iff.mp hheader
    refine ⟨hop, ?_, ?_⟩
    · rw [exists_error_iff, exists_encode_iff, writable_iff, and_iff_left hop]
      simp only [not_forall, not_le, exists_prop]
    · intro written hwritten
      refine ⟨decode_of_encode hwritten, ?_, forms, hforms, rfl, ?_,
        encode_eq_iff hforms hwritten⟩
      · intro other hother
        exact (encode_shortens hother hwritten).imp Eq.symm id
      · intro others hothers heq
        exact Instruction.forms_unique hothers hforms heq
  · exact exists_decodeFrom_error_iff

/-- One byte behind a header with an opcode of its own is read, but written behind its length, and
of two bytes promised by a header one is not enough. -/
theorem encode_decode_shortest_padded :
    decode [0x4c, 0x01, 0xff] = .ok [.push [0xff]] ∧
      encode [.push [0xff]] = .ok [0x01, 0xff] ∧
      (∃ forms, List.Forall₂ Instruction.IsForm [.push [0xff]] forms ∧
        forms.flatten = [0x4c, 0x01, 0xff] ∧
        ¬ List.Forall₂ Instruction.HasShortestHeader [.push [0xff]] forms) ∧
      ∃ e, decode [0x02, 0xff] = .error e := by
  have hform : (Instruction.push [0xff]).IsForm [0x4c, 0x01, 0xff] :=
    ⟨0x4c, [0x01], rfl, rfl, rfl, rfl⟩
  have hread : decode [0x4c, 0x01, 0xff] = .ok [.push [0xff]] :=
    decodeFrom_eq_ok_iff.mpr ⟨_, .cons hform .nil, rfl⟩
  have hwritten : encode [.push [0xff]] = .ok [0x01, 0xff] := by rfl
  have hcut : CutShort ([0x02] ++ [0xff]) := @CutShort.data 0x02 [] [0xff] rfl rfl (by decide)
  obtain ⟨-, hpadded, hshort⟩ := encode_decode_shortest
  obtain ⟨-, forms, hforms, hbytes, -, hiff⟩ := ((hpadded _ _ hread).2.2 _ hwritten).2
  refine ⟨hread, hwritten, ⟨forms, hforms, hbytes, fun hshortest => ?_⟩, ?_⟩
  · exact absurd (hiff.mpr hshortest) (by decide)
  · exact (hshort _).mpr ⟨[], [], _, .nil, hcut, rfl⟩

end Script

end CoinSpend
