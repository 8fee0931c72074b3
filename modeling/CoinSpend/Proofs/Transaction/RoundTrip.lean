import CoinSpend.Proofs.Script.RoundTrip
import CoinSpend.Transaction.Wire
import Mathlib

/-!
# Reading written transactions

The parts of a transaction are written one after another, each in a form that tells where it ends.
So a written transaction is read back in front of any other bytes, and only its scripts can keep it
from being written.

Results:
* `reads_of_encodeList`: the reading of a list behind its length.
* `Input.reads_of_encode`, `Output.reads_of_encode`: the reading of an input and of an output.
* `Transaction.reads_of_encode`, `Transaction.decode_of_encode`: the reading of a transaction.
* `Transaction.eq_of_encode`: written transactions are told apart by their bytes.
* `Transaction.exists_encode_iff`: which transactions can be written.
-/

namespace CoinSpend

/-! ## Lists -/

section List

variable {α : Type} {write : α → Except Error Bytes} {reader : Reader α}

theorem encodeList_eq_ok_iff {values : List α} {bytes : Bytes} :
    Transaction.encodeList write values = .ok bytes ↔
      ∃ pieces, List.Forall₂ (fun a piece => write a = .ok piece) values pieces ∧
        Varint.encode values.length ++ pieces.flatten = bytes := by
  unfold Transaction.encodeList
  rw [bind_eq_ok_iff]
  simp only [mapM_eq_ok_iff, pure, Except.pure, Except.ok.injEq]

theorem exists_encodeList_iff {values : List α} :
    (∃ bytes, Transaction.encodeList write values = .ok bytes) ↔
      ∀ a ∈ values, ∃ bytes, write a = .ok bytes := by
  rw [← exists_mapM_eq_ok_iff]
  simp only [encodeList_eq_ok_iff, mapM_eq_ok_iff]
  exact exists_image_iff

theorem encodeList_map {β : Type} (f : β → α) (values : List β) :
    Transaction.encodeList write (values.map f) = Transaction.encodeList (write ∘ f) values := by
  unfold Transaction.encodeList
  rw [List.length_map, List.mapM_map]

/-- Members have bytes, so there are no more of them than there are bytes. -/
theorem length_le_length_flatten {values : List α} {pieces : List Bytes}
    (hwrite : ∀ {a piece}, write a = .ok piece → piece ≠ [])
    (h : List.Forall₂ (fun a piece => write a = .ok piece) values pieces) :
    values.length ≤ pieces.flatten.length := by
  induction h with
  | nil => exact Nat.le_refl 0
  | cons hhead _ ih =>
    have hpos := List.length_pos_iff.mpr (hwrite hhead)
    rw [List.length_cons, List.flatten_cons, List.length_append]
    omega

theorem forall₂_reads {values : List α} {pieces : List Bytes}
    (hread : ∀ {a piece}, write a = .ok piece → piece.length < 2 ^ 64 → Reads reader piece a)
    (h : List.Forall₂ (fun a piece => write a = .ok piece) values pieces)
    (hlength : pieces.flatten.length < 2 ^ 64) : List.Forall₂ (Reads reader) pieces values := by
  induction h with
  | nil => exact .nil
  | cons hhead _ ih =>
    rw [List.flatten_cons, List.length_append] at hlength
    exact .cons (hread hhead (by omega)) (ih (by omega))

/-- A list is read back behind its length if its members are. -/
theorem reads_of_encodeList {values : List α} {bytes : Bytes}
    (hwrite : ∀ {a piece}, write a = .ok piece → piece ≠ [])
    (hread : ∀ {a piece}, write a = .ok piece → piece.length < 2 ^ 64 → Reads reader piece a)
    (h : Transaction.encodeList write values = .ok bytes) (hlength : bytes.length < 2 ^ 64) :
    Reads (Varint.read >>= fun count => Reader.replicate count reader) bytes values := by
  obtain ⟨pieces, hpieces, rfl⟩ := encodeList_eq_ok_iff.mp h
  rw [List.length_append] at hlength
  have hcount : values.length < 2 ^ 64 := by
    have hle := length_le_length_flatten hwrite hpieces
    omega
  have hmembers := forall₂_reads hread hpieces (by omega)
  exact (Reads.varint hcount).bind (Reads.replicate hmembers)

end List

/-! ## Inputs and outputs -/

namespace Input

theorem encode_eq_ok_iff {input : Input} {bytes : Bytes} :
    input.encode = .ok bytes ↔ ∃ script, input.unlocking.encodeSized = .ok script ∧
      input.prevId.reverse.val ++ (Wire.uint32 input.prevIndex ++ (script ++
        Wire.uint32 input.sequence)) = bytes := by
  unfold encode encodeWith
  rw [bind_eq_ok_iff]
  simp only [pure, Except.pure, Except.ok.injEq, List.append_assoc]

theorem ne_nil_of_encode {input : Input} {bytes : Bytes} (h : input.encode = .ok bytes) :
    bytes ≠ [] := by
  obtain ⟨script, -, rfl⟩ := encode_eq_ok_iff.mp h
  rw [← List.length_pos_iff, List.length_append, input.prevId.reverse.property]
  omega

theorem exists_encode_iff {input : Input} :
    (∃ bytes, input.encode = .ok bytes) ↔ ∀ i ∈ input.unlocking, i.Writable := by
  rw [← Script.exists_encodeSized_iff]
  simp only [encode_eq_ok_iff]
  exact exists_image_iff

/-- An input is read off its fields one after another. -/
theorem reads_fields {input : Input} {script : Bytes}
    (h : Reads Script.read script input.unlocking) :
    Reads read (input.prevId.reverse.val ++ (Wire.uint32 input.prevIndex ++ (script ++
      Wire.uint32 input.sequence))) input := by
  refine (Reads.take input.prevId.reverse).bind ?_
  rw [FixedBytes.reverse_reverse]
  exact (Reads.uint32 input.prevIndex).bind (h.bind ((Reads.uint32 input.sequence).map _))

/-- A written input is read back. -/
theorem reads_of_encode {input : Input} {bytes : Bytes} (h : input.encode = .ok bytes)
    (hlength : bytes.length < 2 ^ 64) : Reads read bytes input := by
  obtain ⟨script, hscript, rfl⟩ := encode_eq_ok_iff.mp h
  simp only [List.length_append] at hlength
  exact reads_fields (Script.reads_of_encodeSized hscript (by omega))

end Input

namespace Output

theorem encode_eq_ok_iff {output : Output} {bytes : Bytes} :
    output.encode = .ok bytes ↔ ∃ script, output.locking.encodeSized = .ok script ∧
      Wire.uint64 output.amount ++ script = bytes := by
  unfold encode
  rw [bind_eq_ok_iff]
  simp only [pure, Except.pure, Except.ok.injEq]

theorem ne_nil_of_encode {output : Output} {bytes : Bytes} (h : output.encode = .ok bytes) :
    bytes ≠ [] := by
  obtain ⟨script, -, rfl⟩ := encode_eq_ok_iff.mp h
  rw [← List.length_pos_iff, List.length_append, Wire.uint64, Bytes.length_ofNatLE]
  omega

theorem exists_encode_iff {output : Output} :
    (∃ bytes, output.encode = .ok bytes) ↔ ∀ i ∈ output.locking, i.Writable := by
  rw [← Script.exists_encodeSized_iff]
  simp only [encode_eq_ok_iff]
  exact exists_image_iff

/-- An output is read off its fields one after another. -/
theorem reads_fields {output : Output} {script : Bytes}
    (h : Reads Script.read script output.locking) :
    Reads read (Wire.uint64 output.amount ++ script) output :=
  (Reads.uint64 output.amount).bind (h.map (Output.mk output.amount))

/-- A written output is read back. -/
theorem reads_of_encode {output : Output} {bytes : Bytes} (h : output.encode = .ok bytes)
    (hlength : bytes.length < 2 ^ 64) : Reads read bytes output := by
  obtain ⟨script, hscript, rfl⟩ := encode_eq_ok_iff.mp h
  rw [List.length_append] at hlength
  exact reads_fields (Script.reads_of_encodeSized hscript (by omega))

end Output

/-! ## Transactions -/

namespace Transaction

theorem encode_eq_ok_iff {tx : Transaction} {bytes : Bytes} :
    tx.encode = .ok bytes ↔ ∃ inputs outputs,
      encodeList Input.encode tx.inputs = .ok inputs ∧
        encodeList Output.encode tx.outputs = .ok outputs ∧
        Wire.uint32 tx.version ++ (inputs ++ (outputs ++ Wire.uint32 tx.locktime)) = bytes := by
  unfold encode
  simp only [bind_eq_ok_iff, pure, Except.pure, Except.ok.injEq, List.append_assoc]
  simp only [exists_and_left]

/-- The lists of a transaction are read behind their lengths. -/
theorem read_eq (testnet : Bool) :
    read testnet = (do
      let version ← Reader.uint32
      let inputs ← Varint.read >>= fun count => Reader.replicate count Input.read
      let outputs ← Varint.read >>= fun count => Reader.replicate count Output.read
      let locktime ← Reader.uint32
      return ⟨version, inputs, outputs, locktime, testnet⟩) := by
  unfold read
  simp only [bind_assoc]

/-- A transaction is read off its fields one after another. -/
theorem reads_fields {tx : Transaction} {inputs outputs : Bytes}
    (hinputs : Reads (Varint.read >>= fun count => Reader.replicate count Input.read)
      inputs tx.inputs)
    (houtputs : Reads (Varint.read >>= fun count => Reader.replicate count Output.read)
      outputs tx.outputs) :
    Reads (read tx.testnet)
      (Wire.uint32 tx.version ++ (inputs ++ (outputs ++ Wire.uint32 tx.locktime))) tx := by
  rw [read_eq]
  exact (Reads.uint32 tx.version).bind (hinputs.bind (houtputs.bind
    ((Reads.uint32 tx.locktime).map fun locktime =>
      (⟨tx.version, tx.inputs, tx.outputs, locktime, tx.testnet⟩ : Transaction))))

/-- A written transaction is read back in front of any bytes. -/
theorem reads_of_encode {tx : Transaction} {bytes : Bytes} (h : tx.encode = .ok bytes)
    (hlength : bytes.length < 2 ^ 64) : Reads (read tx.testnet) bytes tx := by
  obtain ⟨inputs, outputs, hinputs, houtputs, rfl⟩ := encode_eq_ok_iff.mp h
  simp only [List.length_append] at hlength
  exact reads_fields
    (reads_of_encodeList Input.ne_nil_of_encode Input.reads_of_encode hinputs (by omega))
    (reads_of_encodeList Output.ne_nil_of_encode Output.reads_of_encode houtputs (by omega))

/-- Equal bytes are written for equal transactions, up to the network, which is not written. -/
theorem eq_of_encode {tx tx' : Transaction} {bytes : Bytes} (h : tx.encode = .ok bytes)
    (h' : tx'.encode = .ok bytes) (hlength : bytes.length < 2 ^ 64) :
    { tx with testnet := tx'.testnet } = tx' := by
  have hencode : { tx with testnet := tx'.testnet }.encode = .ok bytes := h
  exact (reads_of_encode hencode hlength).unique (reads_of_encode h' hlength)

/-- A written transaction is read back by itself. -/
theorem decode_of_encode {tx : Transaction} {bytes : Bytes} (h : tx.encode = .ok bytes)
    (hlength : bytes.length < 2 ^ 64) : decode bytes tx.testnet = .ok tx := by
  have hread := reads_of_encode h hlength [] 0
  rw [List.append_nil] at hread
  unfold decode Reader.start
  rw [hread, ok_bind]
  rfl

/-- The scripts that are part of a transaction. -/
def scripts (tx : Transaction) : List Script :=
  tx.inputs.map (·.unlocking) ++ tx.outputs.map (·.locking)

/-- A transaction can be written exactly if each instruction of its scripts can. -/
theorem exists_encode_iff {tx : Transaction} :
    (∃ bytes, tx.encode = .ok bytes) ↔ ∀ script ∈ tx.scripts, ∀ i ∈ script, i.Writable := by
  have hscripts : (∀ script ∈ tx.scripts, ∀ i ∈ script, i.Writable) ↔
      (∃ inputs, encodeList Input.encode tx.inputs = .ok inputs) ∧
        ∃ outputs, encodeList Output.encode tx.outputs = .ok outputs := by
    unfold scripts
    rw [List.forall_mem_append, List.forall_mem_map, List.forall_mem_map]
    simp only [exists_encodeList_iff, Input.exists_encode_iff, Output.exists_encode_iff]
  rw [hscripts]
  simp only [encode_eq_ok_iff]
  constructor
  · rintro ⟨-, inputs, outputs, hinputs, houtputs, -⟩
    exact ⟨⟨inputs, hinputs⟩, ⟨outputs, houtputs⟩⟩
  · rintro ⟨⟨inputs, hinputs⟩, ⟨outputs, houtputs⟩⟩
    exact ⟨_, inputs, outputs, hinputs, houtputs, rfl⟩

/-- What is written is read back as the transaction it was written from, by itself and in front of
any bytes. Only a push that is too long or the header of a push among the opcodes keeps a
transaction from being written. Byte strings in memory are shorter than `2 ^ 64`. -/
theorem round_trip_and_encode_error_iff (tx : Transaction) :
    (∀ bytes, tx.encode = .ok bytes → bytes.length < 2 ^ 64 →
      decode bytes tx.testnet = .ok tx ∧
        ∀ rest position, read tx.testnet ⟨bytes ++ rest, position⟩ =
          .ok (tx, ⟨rest, position + bytes.length⟩)) ∧
      ((∃ e, tx.encode = .error e) ↔ ∃ script ∈ tx.scripts, ∃ i ∈ script,
        (∃ data, i = .push data ∧ 520 < data.length) ∨
          ∃ code, i = .op code ∧ 0x01 ≤ code ∧ code ≤ 0x4d) := by
  constructor
  · intro bytes h hlength
    have hread := reads_of_encode h hlength
    refine ⟨?_, hread⟩
    unfold decode Reader.start
    have hwhole := hread [] 0
    rw [List.append_nil] at hwhole
    rw [hwhole, ok_bind]
    rfl
  · rw [exists_error_iff, exists_encode_iff]
    simp only [← Instruction.not_writable_iff]
    push Not
    rfl

/-- A transaction whose pushes have the least and the greatest length of each form of header. -/
def boundaryPushes : Transaction where
  version := 1
  inputs := [⟨⟨List.replicate 32 0xab, rfl⟩, 0xffffffff,
    [0, 1, 75, 76, 255, 256, 520].map (.push <| List.replicate · 0x4d) ++ [.op 0x4e, .op 0x00],
    finalSequence⟩]
  outputs := [⟨0xffffffffffffffff, []⟩]
  locktime := 0
  testnet := true

theorem boundaryPushes_round_trip :
    ∃ bytes, boundaryPushes.encode = .ok bytes ∧ bytes.length < 2 ^ 64 ∧
      decode bytes true = .ok boundaryPushes ∧
        ∀ rest position, read true ⟨bytes ++ rest, position⟩ =
          .ok (boundaryPushes, ⟨rest, position + bytes.length⟩) := by
  have hsize : boundaryPushes.encode.toOption.map List.length = some 1261 := by decide +kernel
  cases h : boundaryPushes.encode with
  | error e =>
    rw [h] at hsize
    simp [Except.toOption] at hsize
  | ok bytes =>
    rw [h] at hsize
    have hlength : bytes.length < 2 ^ 64 := by
      rw [Option.some.inj hsize]
      decide
    exact ⟨bytes, rfl, hlength, (round_trip_and_encode_error_iff boundaryPushes).1 bytes h hlength⟩

end Transaction

end CoinSpend
