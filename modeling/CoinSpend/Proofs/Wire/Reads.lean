import CoinSpend.Bytes.Lemmas
import CoinSpend.Proofs.Outcome
import CoinSpend.Wire.Reader
import Mathlib

/-!
# What a reader takes

A reader takes a byte string for a value if it reads the value off the front of every longer string
and stops right behind it. The relation is closed under sequencing, so the round trip of a composite
format follows from those of its fields.

Results:
* `Wire.writeBE_eq_ok_iff`: a big-endian number is written exactly when it fits.
* `Reads.eq_of_isPrefix`: of the byte strings that a reader takes none starts another.
* `Reads.bind`, `Reads.replicate`: readers in sequence take byte strings in sequence.
* `Reads.number`: a number that fits is read back from its digits.
-/

namespace CoinSpend

/-! ## Which numbers can be written -/

namespace Wire

theorem writeBE_eq_ok_iff {size value : Nat} {bytes : FixedBytes size} :
    writeBE size value = .ok bytes ↔
      value < 256 ^ size ∧ bytes = FixedBytes.ofNatBE size value := by
  unfold writeBE
  split
  · next h => simp [(Bytes.width_le_iff _ _).mp h, eq_comm]
  · next h =>
    have hlt : ¬ value < 256 ^ size := fun hlt => h ((Bytes.width_le_iff _ _).mpr hlt)
    simp [hlt]

end Wire

/-! ## Readers -/

/-- The reader takes `bytes` for `value`, whatever stands behind them. -/
def Reads {α : Type} (reader : Reader α) (bytes : Bytes) (value : α) : Prop :=
  ∀ rest position,
    reader ⟨bytes ++ rest, position⟩ = .ok (value, ⟨rest, position + bytes.length⟩)

namespace Reads

variable {α β : Type}

/-- What a reader takes bytes for is determined. -/
theorem unique {reader : Reader α} {bytes : Bytes} {a b : α} (ha : Reads reader bytes a)
    (hb : Reads reader bytes b) : a = b := by
  have h := (ha [] 0).symm.trans (hb [] 0)
  rw [Except.ok.injEq, Prod.mk.injEq] at h
  exact h.1

/-- Of two byte strings that a reader takes neither starts the other. -/
theorem eq_of_isPrefix {reader : Reader α} {bytes bytes' : Bytes} {a a' : α}
    (h : Reads reader bytes a) (h' : Reads reader bytes' a') (hstarts : bytes <+: bytes') :
    bytes = bytes' ∧ a = a' := by
  obtain ⟨rest, rfl⟩ := hstarts
  have hread := h' [] 0
  rw [List.append_nil, h, Except.ok.injEq, Prod.mk.injEq, Cursor.mk.injEq] at hread
  obtain ⟨rfl, rfl, -⟩ := hread
  exact ⟨(List.append_nil bytes).symm, rfl⟩

/-! ## Sequencing -/

theorem pure (value : α) : Reads (pure value) [] value := by
  intro rest position
  rfl

/-- What stands behind a reader goes on with its value, right behind its bytes. -/
theorem bind_apply {reader : Reader α} {bytes : Bytes} {a : α} (h : Reads reader bytes a)
    (next : α → Reader β) (rest : Bytes) (position : ℕ) :
    (reader >>= next) ⟨bytes ++ rest, position⟩ = next a ⟨rest, position + bytes.length⟩ := by
  change (reader ⟨bytes ++ rest, position⟩ >>= fun p => next p.1 p.2) = _
  rw [h, ok_bind]

theorem bind {reader : Reader α} {next : α → Reader β} {as bs : Bytes} {a : α} {b : β}
    (ha : Reads reader as a) (hb : Reads (next a) bs b) :
    Reads (reader >>= next) (as ++ bs) b := by
  intro rest position
  rw [List.append_assoc, ha.bind_apply, hb, List.length_append, Nat.add_assoc]

theorem map {reader : Reader α} {bytes : Bytes} {a : α} (f : α → β)
    (h : Reads reader bytes a) : Reads (reader >>= fun a => Pure.pure (f a)) bytes (f a) := by
  rw [← List.append_nil bytes]
  exact h.bind (pure (f a))

/-- What is read may be checked without reading on. -/
theorem bindLift {reader : Reader α} {check : α → Except Error β} {bytes : Bytes} {a : α} {b : β}
    (h : Reads reader bytes a) (hcheck : check a = .ok b) :
    Reads (reader >>= fun a => liftM (check a)) bytes b := by
  have hlift : Reads (liftM (check a)) [] b := by
    rw [hcheck]
    exact pure b
  rw [← List.append_nil bytes]
  exact h.bind hlift

/-- Reading as many values as there are byte strings takes one value off each. -/
theorem replicate {reader : Reader α} {pieces : List Bytes} {values : List α}
    (h : List.Forall₂ (Reads reader) pieces values) :
    Reads (Reader.replicate values.length reader) pieces.flatten values := by
  induction h with
  | nil => exact pure []
  | cons hhead _ ih => exact hhead.bind (ih.map _)

/-! ## Fields of fixed width -/

theorem take {n : Nat} (taken : FixedBytes n) : Reads (Reader.take n) taken.val taken := by
  intro rest position
  rw [Reader.take_append, taken.property]

theorem bytes (body : Bytes) : Reads (Reader.bytes body.length) body body :=
  (take ⟨body, rfl⟩).map Subtype.val

theorem number {n value : Nat} (h : value < 256 ^ n) :
    Reads (Reader.number n) (Bytes.ofNatLE n value) value := by
  have hread := (take ⟨Bytes.ofNatLE n value, Bytes.length_ofNatLE n value⟩).map
    fun taken => Bytes.toNatLE taken.val
  rw [Bytes.toNatLE_ofNatLE, Nat.mod_eq_of_lt h] at hread
  exact hread

theorem byte (code : UInt8) : Reads Reader.byte [code] code := by
  have hread := (number (n := 1) code.toNat_lt).map UInt8.ofNat
  rw [UInt8.ofNat_toNat, Bytes.ofNatLE, Bytes.ofNatLE, UInt8.ofNat_toNat] at hread
  exact hread

theorem uint32 (value : UInt32) :
    Reads Reader.uint32 (Bytes.ofNatLE 4 value.toNat) value := by
  have hread := (number (n := 4) value.toNat_lt).map UInt32.ofNat
  rw [UInt32.ofNat_toNat] at hread
  exact hread

theorem uint64 (value : UInt64) :
    Reads Reader.uint64 (Bytes.ofNatLE 8 value.toNat) value := by
  have hread := (number (n := 8) value.toNat_lt).map UInt64.ofNat
  rw [UInt64.ofNat_toNat] at hread
  exact hread

end Reads

end CoinSpend
