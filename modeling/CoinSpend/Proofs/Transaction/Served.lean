import CoinSpend.Proofs.Transaction.Forms
import Mathlib

/-!
# Written transactions among those that are served

The mark of the form with witness data is a zero byte where other transactions have the number of
their inputs. So what was written for a transaction with inputs is taken for what it is. Without
inputs it is taken for a marked form, and the two bytes that are dropped then are missing.

In a marked form the locktime is read twice: off the first four bytes behind the outputs, which may
be witness data, and then off the last four bytes, which are kept.

Results:
* `Transaction.getElem?_mark_iff`: which written transactions look marked.
* `Transaction.decodeServed_of_encode`: a transaction with inputs is read back.
* `Transaction.decodeServed_ne_of_encode`: a transaction without inputs is not read back.
* `Transaction.decodeServed_marked`: what is read of a marked form.
* `Transaction.decodeServed_either_form`: a transaction is read off its marked form as well.
-/

namespace CoinSpend

/-! ## Numbers of four bytes -/

namespace Wire

theorem length_uint32 (value : UInt32) : (uint32 value).length = 4 :=
  Bytes.length_ofNatLE 4 value.toNat

theorem ofNat_toNatLE_uint32 (value : UInt32) :
    UInt32.ofNat (Bytes.toNatLE (uint32 value)) = value := by
  have hlt : value.toNat < 256 ^ 4 := value.toNat_lt
  rw [uint32, Bytes.toNatLE_ofNatLE, Nat.mod_eq_of_lt hlt, UInt32.ofNat_toNat]

/-- Any four bytes are a number. -/
theorem exists_uint32 {bytes : Bytes} (h : bytes.length = 4) :
    ∃ value, uint32 value = bytes := by
  have hlt : Bytes.toNatLE bytes < 2 ^ 32 := by
    have hbound := Bytes.toNatLE_lt bytes
    rw [h] at hbound
    exact hbound
  have hdigits := Bytes.ofNatLE_toNatLE bytes
  rw [h] at hdigits
  refine ⟨UInt32.ofNat (Bytes.toNatLE bytes), ?_⟩
  rw [uint32, UInt32.toNat_ofNat', Nat.mod_eq_of_lt hlt, hdigits]

end Wire

namespace Transaction

open Hash (hash256)

variable {tx : Transaction} {bytes : Bytes}

/-! ## The written form -/

/-- The number of inputs stands behind the four bytes of the version. -/
theorem getElem?_mark_iff (h : tx.encode = .ok bytes) : bytes[4]? = some 0 ↔ tx.inputs = [] := by
  obtain ⟨inputs, outputs, hinputs, -, rfl⟩ := encode_eq_ok_iff.mp h
  obtain ⟨pieces, -, rfl⟩ := encodeList_eq_ok_iff.mp hinputs
  have hversion := Wire.length_uint32 tx.version
  rw [List.getElem?_append_right (by omega), hversion, List.append_assoc, Nat.sub_self,
    List.getElem?_append_left (Varint.length_encode_pos _), Varint.getElem?_encode_iff,
    List.length_eq_zero_iff]

/-- There are at least the version, two numbers of members and the locktime. -/
theorem ten_le_length_encode (h : tx.encode = .ok bytes) : 10 ≤ bytes.length := by
  obtain ⟨inputs, outputs, hinputs, houtputs, rfl⟩ := encode_eq_ok_iff.mp h
  obtain ⟨ins, -, rfl⟩ := encodeList_eq_ok_iff.mp hinputs
  obtain ⟨outs, -, rfl⟩ := encodeList_eq_ok_iff.mp houtputs
  have hins := Varint.length_encode_pos tx.inputs.length
  have houts := Varint.length_encode_pos tx.outputs.length
  simp only [List.length_append, Wire.length_uint32]
  omega

theorem decodeServed_of_encode (h : tx.encode = .ok bytes) (hlength : bytes.length < 2 ^ 64)
    (hinputs : tx.inputs ≠ []) (testnet : Bool) :
    decodeServed bytes testnet = .ok { tx with testnet := testnet } := by
  have hwritten : { tx with testnet := testnet }.encode = .ok bytes := h
  have hread := reads_of_encode hwritten hlength [] 0
  rw [List.append_nil] at hread
  unfold decodeServed Reader.start
  rw [if_neg (fun hmark => hinputs ((getElem?_mark_iff h).mp hmark.2)), hread]
  rfl

/-- The locktime is written in four bytes, whatever it is. -/
theorem exists_encode_locktime (h : tx.encode = .ok bytes) (locktime : UInt32) :
    ∃ written, { tx with locktime := locktime }.encode = .ok written ∧
      written.length = bytes.length := by
  obtain ⟨inputs, outputs, hinputs, houtputs, rfl⟩ := encode_eq_ok_iff.mp h
  refine ⟨_, encode_eq_ok_iff.mpr ⟨inputs, outputs, hinputs, houtputs, rfl⟩, ?_⟩
  simp only [List.length_append, Wire.length_uint32]

/-- What is left of the bytes without the mark is shorter than any form of the transaction. -/
theorem decodeServed_ne_of_encode (h : tx.encode = .ok bytes) (hinputs : tx.inputs = [])
    (testnet : Bool) : decodeServed bytes testnet ≠ .ok { tx with testnet := testnet } := by
  intro hserved
  have hlong := ten_le_length_encode h
  unfold decodeServed at hserved
  rw [if_pos ⟨by omega, (getElem?_mark_iff h).mpr hinputs⟩] at hserved
  obtain ⟨⟨served, cursor⟩, hread, heq⟩ := bind_eq_ok_iff.mp hserved
  obtain ⟨form, hform, hfront⟩ := Faithful.exists_form hread
  have hserved : served = { tx with testnet := testnet, locktime := served.locktime } :=
    congrArg (fun read : Transaction => { read with locktime := served.locktime })
      (Except.ok.inj heq)
  -- What was read could be written again, in as many bytes as there were with the mark.
  obtain ⟨written, hwritten, hsame⟩ := exists_encode_locktime h served.locktime
  have hencode : served.encode = .ok written := by
    rw [hserved]
    exact hwritten
  have hle := (writesShortest testnet _ _ _ hform hencode).2.length_le
  have hshort := congrArg List.length hfront
  simp only [List.length_append, List.length_take, List.length_drop] at hshort
  omega

/-! ## The marked form -/

section Marked

variable {version body locktime : Bytes}

/-- Of the marked form, all but the mark and the flag is read, and the last four bytes are the
locktime whatever was read for it. -/
theorem decodeServed_marked (hversion : version.length = 4) (hlocktime : locktime.length = 4)
    (flag : UInt8) (middle : Bytes) (testnet : Bool) :
    decodeServed (version ++ [0x00, flag] ++ middle ++ locktime) testnet =
      ((read testnet).start (version ++ middle ++ locktime)).map fun (tx, _) =>
        { tx with locktime := UInt32.ofNat (Bytes.toNatLE locktime) } := by
  have hmark : (version ++ [0x00, flag] ++ middle ++ locktime)[4]? = some 0 := by
    simp [hversion]
  have hstripped : (version ++ [0x00, flag] ++ middle ++ locktime).take 4 ++
      (version ++ [0x00, flag] ++ middle ++ locktime).drop 6 = version ++ middle ++ locktime := by
    simp [List.drop_append, hversion]
  have hfront : (version ++ [0x00, flag] ++ middle ++ locktime).length - 4 =
      (version ++ [0x00, flag] ++ middle).length := by
    rw [List.length_append, hlocktime, Nat.add_sub_cancel]
  have hlong : 6 < (version ++ [0x00, flag] ++ middle ++ locktime).length := by
    simp only [List.length_append, List.length_cons, List.length_nil]
    omega
  unfold decodeServed
  rw [if_pos ⟨hlong, hmark⟩, hstripped, hfront, List.drop_left]
  cases (read testnet).start (version ++ middle ++ locktime) <;> rfl

/-- A written transaction starts with its version and ends with its locktime, which can be
exchanged. -/
theorem encode_with_locktime (h : tx.encode = .ok (version ++ body ++ locktime))
    (hlocktime : locktime.length = 4) :
    locktime = Wire.uint32 tx.locktime ∧ ∀ other,
      { tx with locktime := other }.encode = .ok (version ++ body ++ Wire.uint32 other) := by
  obtain ⟨inputs, outputs, hinputs, houtputs, hparts⟩ := encode_eq_ok_iff.mp h
  have hsplit : (Wire.uint32 tx.version ++ (inputs ++ outputs)) ++ Wire.uint32 tx.locktime =
      (version ++ body) ++ locktime := by
    rw [← hparts]
    simp only [List.append_assoc]
  obtain ⟨hfront, hlast⟩ :=
    List.append_inj' hsplit (by rw [Wire.length_uint32, hlocktime])
  refine ⟨hlast.symm, fun other => encode_eq_ok_iff.mpr ⟨inputs, outputs, hinputs, houtputs, ?_⟩⟩
  rw [← hfront]
  simp only [List.append_assoc]

/-- In front of any four bytes or more, the start of a written transaction is read as far as the
locktime, for which the first four of them are taken. -/
theorem exists_start_of_encode (h : tx.encode = .ok (version ++ body ++ locktime))
    (hlocktime : locktime.length = 4) (hlength : (version ++ body ++ locktime).length < 2 ^ 64)
    {behind : Bytes} (hbehind : 4 ≤ behind.length) :
    ∃ first cursor, (read tx.testnet).start (version ++ body ++ behind) =
      .ok ({ tx with locktime := first }, cursor) := by
  obtain ⟨-, hother⟩ := encode_with_locktime h hlocktime
  obtain ⟨first, hfirst⟩ := Wire.exists_uint32 (List.length_take_of_le hbehind)
  have hshort : (version ++ body ++ Wire.uint32 first).length < 2 ^ 64 := by
    rw [List.length_append, Wire.length_uint32, ← hlocktime, ← List.length_append]
    exact hlength
  have hread := reads_of_encode (hother first) hshort (behind.drop 4) 0
  rw [hfirst, List.append_assoc, List.take_append_drop] at hread
  exact ⟨first, _, hread⟩

/-- A transaction with inputs is read off its written form, and off the marked form of it: with a
mark and any flag behind the version, and any bytes in front of the locktime. In either case its id
is the hash of the written form without the mark and the witness data. Byte strings in memory are
shorter than `2 ^ 64`. -/
theorem decodeServed_either_form (h : tx.encode = .ok (version ++ body ++ locktime))
    (hinputs : tx.inputs ≠ []) (hversion : version.length = 4) (hlocktime : locktime.length = 4)
    (hlength : (version ++ body ++ locktime).length < 2 ^ 64) (flag : UInt8) (witness : Bytes)
    (testnet : Bool) :
    decodeServed (version ++ [0x00, flag] ++ body ++ witness ++ locktime) testnet =
        .ok { tx with testnet := testnet } ∧
      decodeServed (version ++ body ++ locktime) testnet = .ok { tx with testnet := testnet } ∧
      { tx with testnet := testnet }.id =
        .ok (Hex.encode (hash256 (version ++ body ++ locktime)).reverse.val) ∧
      tx.id = .ok (Hex.encode (hash256 (version ++ body ++ locktime)).reverse.val) := by
  have hwritten : { tx with testnet := testnet }.encode = .ok (version ++ body ++ locktime) := h
  refine ⟨?_, decodeServed_of_encode h hlength hinputs testnet,
    id_eq_ok_iff.mpr (hash_of_encode hwritten), id_eq_ok_iff.mpr (hash_of_encode h)⟩
  have hbehind : 4 ≤ (witness ++ locktime).length := by
    rw [List.length_append]
    omega
  obtain ⟨first, cursor, hstart⟩ := exists_start_of_encode hwritten hlocktime hlength hbehind
  have hlast := (encode_with_locktime h hlocktime).1
  rw [List.append_assoc _ body witness, decodeServed_marked hversion hlocktime,
    ← List.append_assoc version, List.append_assoc _ witness, hstart, hlast]
  simp only [Except.map, Wire.ofNat_toNatLE_uint32]

end Marked

/-- What `onePush` is written as between its version and its locktime. -/
def onePushBody : Bytes :=
  [0x01] ++ List.replicate 36 0x00 ++ [0x02, 0x01, 0xff] ++ Wire.uint32 finalSequence ++ [0x00]

theorem decodeServed_onePush_marked :
    onePush.inputs ≠ [] ∧
      onePush.encode = .ok (Wire.uint32 1 ++ onePushBody ++ Wire.uint32 0) ∧
      decodeServed (Wire.uint32 1 ++ [0x00, 0x01] ++ onePushBody ++
        [0xaa, 0xbb, 0xcc, 0xdd, 0xee] ++ Wire.uint32 0) true =
          .ok { onePush with testnet := true } := by
  have hinputs : onePush.inputs ≠ [] := List.cons_ne_nil _ _
  have hencode : onePush.encode = .ok (Wire.uint32 1 ++ onePushBody ++ Wire.uint32 0) :=
    eq_ok_of_toOption (by decide +kernel)
  exact ⟨hinputs, hencode,
    (decodeServed_either_form hencode hinputs rfl rfl (by decide) 0x01 _ true).1⟩

end Transaction

end CoinSpend
