import CoinSpend.Proofs.Script.Forms
import CoinSpend.Proofs.Transaction.RoundTrip
import CoinSpend.Store.Basic
import Mathlib

/-!
# The forms of a transaction

Counts of any width and pushes behind any header are read, so that a transaction has several forms.
Which of them it was read off is not kept: every one of them is written as the shortest, from which
the transaction has its hash and its id.

Results:
* `writesShortest_list`, `Input.writesShortest`, `Output.writesShortest`,
  `Transaction.writesShortest`: each part is written in the shortest of its forms.
* `Transaction.exists_encode_iff_of_reads`: which transactions that were read can be written.
* `Store.fetch_insert`: a store delivers what was put in under its hash.
* `Transaction.encode_of_decode`: when the bytes that were read are those that are written.
-/

namespace CoinSpend

open Hash (hash256)

/-! ## Lists -/

section List

variable {α : Type} {reader : Reader α} [Faithful reader] {write : α → Except Error Bytes}

theorem reads_list_iff {values : List α} {bytes : Bytes} :
    Reads (Varint.read >>= fun count => Reader.replicate count reader) bytes values ↔
      ∃ count pieces, Reads Varint.read count values.length ∧
        List.Forall₂ (fun a piece => Reads reader piece a) values pieces ∧
        count ++ pieces.flatten = bytes := by
  rw [Reads.bind_iff]
  simp only [Reads.replicate_iff]
  constructor
  · rintro ⟨_, count, _, hcount, ⟨rfl, pieces, hpieces, rfl⟩, rfl⟩
    exact ⟨count, pieces, hcount, hpieces, rfl⟩
  · rintro ⟨count, pieces, hcount, hpieces, rfl⟩
    exact ⟨values.length, count, pieces.flatten, hcount, ⟨rfl, pieces, hpieces, rfl⟩, rfl⟩

/-- A list is written in the shortest of its forms if its members are. -/
theorem writesShortest_list (h : WritesShortest reader write) :
    WritesShortest (Varint.read >>= fun count => Reader.replicate count reader)
      (Transaction.encodeList write) := by
  intro values bytes written hread hwritten
  obtain ⟨count, pieces, hcount, hpieces, rfl⟩ := reads_list_iff.mp hread
  obtain ⟨writtens, hwrittens, rfl⟩ := encodeList_eq_ok_iff.mp hwritten
  obtain ⟨hfits, hshortest⟩ := hcount.varint_shortens
  have hforms : List.Forall₂ (fun a piece => Reads reader piece a) values writtens := by
    refine ((List.forall₂_and_left values writtens).mpr
      ⟨exists_of_forall₂ hpieces, hwrittens⟩).imp ?_
    rintro a written ⟨⟨piece, hpiece⟩, hwritten⟩
    exact (h a piece written hpiece hwritten).1
  have hmembers := Shortens.flatten hpieces hwrittens fun a piece written hpiece hwritten =>
    (h a piece written hpiece hwritten).2
  exact ⟨reads_list_iff.mpr ⟨_, writtens, .varint hfits, hforms, rfl⟩, hshortest.append hmembers⟩

end List

/-! ## Inputs and outputs -/

namespace Input

instance faithful_read : Faithful read :=
  inferInstanceAs (Faithful (Reader.take 32 >>= fun prevId => Reader.uint32 >>= fun prevIndex =>
    Script.read >>= fun unlocking => Reader.uint32 >>= fun sequence =>
      pure (⟨prevId.reverse, prevIndex, unlocking, sequence⟩ : Input)))

theorem reads_iff {input : Input} {bytes : Bytes} :
    Reads read bytes input ↔ ∃ script, Reads Script.read script input.unlocking ∧
      input.prevId.reverse.val ++ (Wire.uint32 input.prevIndex ++ (script ++
        Wire.uint32 input.sequence)) = bytes := by
  constructor
  · intro h
    unfold read at h
    simp only [Reads.bind_iff, Reads.pure_iff, Reads.take_iff, Reads.uint32_iff] at h
    obtain ⟨prevId, _, _, rfl, ⟨prevIndex, _, _, rfl, ⟨unlocking, script, _, hscript,
      ⟨sequence, _, _, rfl, ⟨rfl, rfl⟩, rfl⟩, rfl⟩, rfl⟩, rfl⟩ := h
    refine ⟨script, hscript, ?_⟩
    rw [FixedBytes.reverse_reverse, List.append_nil]
    rfl
  · rintro ⟨script, hscript, rfl⟩
    exact reads_fields hscript

theorem writesShortest : WritesShortest read encode := by
  intro input bytes written hread hwritten
  obtain ⟨script, hscript, rfl⟩ := reads_iff.mp hread
  obtain ⟨script', hscript', rfl⟩ := encode_eq_ok_iff.mp hwritten
  obtain ⟨hform, hshortens⟩ := Script.writesShortest _ _ _ hscript hscript'
  exact ⟨reads_fields hform, (Shortens.refl _).append ((Shortens.refl _).append
    (hshortens.append (.refl _)))⟩

end Input

namespace Output

instance faithful_read : Faithful read :=
  inferInstanceAs (Faithful (Reader.uint64 >>= fun amount => Script.read >>= fun locking =>
    pure (⟨amount, locking⟩ : Output)))

theorem reads_iff {output : Output} {bytes : Bytes} :
    Reads read bytes output ↔ ∃ script, Reads Script.read script output.locking ∧
      Wire.uint64 output.amount ++ script = bytes := by
  constructor
  · intro h
    unfold read at h
    simp only [Reads.bind_iff, Reads.pure_iff, Reads.uint64_iff] at h
    obtain ⟨amount, _, _, rfl, ⟨locking, script, _, hscript, ⟨rfl, rfl⟩, rfl⟩, rfl⟩ := h
    rw [List.append_nil]
    exact ⟨script, hscript, rfl⟩
  · rintro ⟨script, hscript, rfl⟩
    exact reads_fields hscript

theorem writesShortest : WritesShortest read encode := by
  intro output bytes written hread hwritten
  obtain ⟨script, hscript, rfl⟩ := reads_iff.mp hread
  obtain ⟨script', hscript', rfl⟩ := encode_eq_ok_iff.mp hwritten
  obtain ⟨hform, hshortens⟩ := Script.writesShortest _ _ _ hscript hscript'
  exact ⟨reads_fields hform, (Shortens.refl _).append hshortens⟩

end Output

/-! ## Transactions -/

namespace Transaction

instance faithful_read (testnet : Bool) : Faithful (read testnet) := by
  rw [read_eq]
  infer_instance

theorem reads_iff {testnet : Bool} {tx : Transaction} {bytes : Bytes} :
    Reads (read testnet) bytes tx ↔ testnet = tx.testnet ∧ ∃ inputs outputs,
      Reads (Varint.read >>= fun count => Reader.replicate count Input.read) inputs tx.inputs ∧
      Reads (Varint.read >>= fun count => Reader.replicate count Output.read) outputs tx.outputs ∧
      Wire.uint32 tx.version ++ (inputs ++ (outputs ++ Wire.uint32 tx.locktime)) = bytes := by
  constructor
  · intro h
    rw [read_eq] at h
    obtain ⟨version, _, _, hversion, hlists, rfl⟩ := Reads.bind_iff.mp h
    obtain ⟨ins, inputs, _, hinputs, hbehind, rfl⟩ := Reads.bind_iff.mp hlists
    obtain ⟨outs, outputs, _, houtputs, hlast, rfl⟩ := Reads.bind_iff.mp hbehind
    obtain ⟨locktime, hlocktime, rfl⟩ := Reads.map_iff.mp hlast
    rw [Reads.uint32_iff.mp hversion, Reads.uint32_iff.mp hlocktime]
    exact ⟨rfl, inputs, outputs, hinputs, houtputs, rfl⟩
  · rintro ⟨rfl, inputs, outputs, hinputs, houtputs, rfl⟩
    exact reads_fields hinputs houtputs

theorem writesShortest (testnet : Bool) : WritesShortest (read testnet) encode := by
  intro tx bytes written hread hwritten
  obtain ⟨rfl, inputs, outputs, hinputs, houtputs, rfl⟩ := reads_iff.mp hread
  obtain ⟨inputs', outputs', hinputs', houtputs', rfl⟩ := encode_eq_ok_iff.mp hwritten
  obtain ⟨hins, hshorterIns⟩ := writesShortest_list Input.writesShortest _ _ _ hinputs hinputs'
  obtain ⟨houts, hshorterOuts⟩ :=
    writesShortest_list Output.writesShortest _ _ _ houtputs houtputs'
  exact ⟨reads_fields hins houts, (Shortens.refl _).append (hshorterIns.append
    (hshorterOuts.append (.refl _)))⟩

/-- The byte strings that are read as a transaction are its forms. -/
theorem decode_eq_ok_iff {bytes : Bytes} {testnet : Bool} {tx : Transaction} :
    decode bytes testnet = .ok tx ↔ Reads (read testnet) bytes tx := by
  unfold decode Reader.start
  rw [bind_eq_ok_iff]
  constructor
  · rintro ⟨⟨tx', cursor⟩, hread, hend⟩
    obtain ⟨form, hform, hbytes⟩ := Faithful.exists_form hread
    dsimp only at hend hbytes
    split at hend
    · next hrest =>
      cases hend
      rw [hbytes, hrest, List.append_nil]
      exact hform
    · cases hend
  · intro h
    have hread := h [] 0
    rw [List.append_nil] at hread
    exact ⟨_, hread, rfl⟩

/-- Each script of a transaction that is read is read by itself. -/
theorem exists_decode_script {testnet : Bool} {tx : Transaction} {bytes : Bytes}
    (h : Reads (read testnet) bytes tx) {script : Script} (hscript : script ∈ tx.scripts) :
    ∃ body, Script.decode body = .ok script := by
  obtain ⟨-, inputs, outputs, hinputs, houtputs, -⟩ := reads_iff.mp h
  obtain ⟨_, _, _, hins, _⟩ := reads_list_iff.mp hinputs
  obtain ⟨_, _, _, houts, _⟩ := reads_list_iff.mp houtputs
  have hread : ∃ form, Reads Script.read form script := by
    rcases List.mem_append.mp hscript with hmem | hmem
    · obtain ⟨input, hinput, rfl⟩ := List.mem_map.mp hmem
      obtain ⟨piece, hpiece⟩ := exists_of_forall₂ hins input hinput
      obtain ⟨form, hform, -⟩ := Input.reads_iff.mp hpiece
      exact ⟨form, hform⟩
    · obtain ⟨output, houtput, rfl⟩ := List.mem_map.mp hmem
      obtain ⟨piece, hpiece⟩ := exists_of_forall₂ houts output houtput
      obtain ⟨form, hform, -⟩ := Output.reads_iff.mp hpiece
      exact ⟨form, hform⟩
  obtain ⟨form, hform⟩ := hread
  obtain ⟨_, body, _, hbody, _⟩ := Script.reads_iff.mp hform
  exact ⟨body, hbody⟩

/-- Only a push that is too long keeps a transaction that was read from being written. -/
theorem exists_encode_iff_of_reads {testnet : Bool} {tx : Transaction} {bytes : Bytes}
    (h : Reads (read testnet) bytes tx) : (∃ written, tx.encode = .ok written) ↔
      ∀ script ∈ tx.scripts, ∀ data, .push data ∈ script → data.length ≤ 520 := by
  rw [exists_encode_iff]
  refine forall₂_congr fun script hscript => ?_
  obtain ⟨body, hbody⟩ := exists_decode_script h hscript
  constructor
  · intro hwritable data hdata
    exact hwritable (.push data) hdata
  · intro hpushes i hi
    by_contra hnot
    obtain ⟨data, rfl, hlong⟩ := (Script.not_writable_iff_of_decode hbody hi).mp hnot
    have hle := hpushes data hi
    omega

/-! ## Ids -/

theorem hash_of_encode {tx : Transaction} {bytes : Bytes} (h : tx.encode = .ok bytes) :
    tx.hash = .ok (hash256 bytes).reverse := by
  unfold hash
  rw [h]
  rfl

theorem hash_eq_ok_iff {tx : Transaction} {hash : FixedBytes 32} :
    tx.hash = .ok hash ↔ ∃ bytes, tx.encode = .ok bytes ∧ (hash256 bytes).reverse = hash := by
  unfold Transaction.hash
  rw [bind_eq_ok_iff]
  constructor
  · rintro ⟨bytes, hbytes, heq⟩
    exact ⟨bytes, hbytes, Except.ok.inj heq⟩
  · rintro ⟨bytes, hbytes, rfl⟩
    exact ⟨bytes, hbytes, rfl⟩

theorem id_eq_ok_iff_exists {tx : Transaction} {text : String} :
    tx.id = .ok text ↔ ∃ hash, tx.hash = .ok hash ∧ Hex.encode hash.val = text := by
  unfold Transaction.id
  rw [bind_eq_ok_iff]
  constructor
  · rintro ⟨hash, hhash, heq⟩
    exact ⟨hash, hhash, Except.ok.inj heq⟩
  · rintro ⟨hash, hhash, rfl⟩
    exact ⟨hash, hhash, rfl⟩

theorem id_eq_ok_iff {tx : Transaction} {hash : FixedBytes 32} :
    tx.id = .ok (Hex.encode hash.val) ↔ tx.hash = .ok hash := by
  rw [id_eq_ok_iff_exists]
  constructor
  · rintro ⟨hash', hhash, heq⟩
    rw [hhash, Subtype.ext (Hex.encode_inj.mp heq)]
  · intro h
    exact ⟨hash, h, rfl⟩

end Transaction

/-- A transaction is kept under its hash, and is delivered to those who ask for it. -/
theorem Store.fetch_insert {tx : Transaction} {hash : FixedBytes 32} (h : tx.hash = .ok hash)
    (store : Store) : tx.id = .ok (Hex.encode hash.val) ∧
      ∃ store', store.insert tx = .ok (Hex.encode hash.val, store') ∧
        ∀ testnet, store'.fetch hash testnet = .ok { tx with testnet := testnet } := by
  have hid := Transaction.id_eq_ok_iff.mpr h
  have hinsert : store.insert tx = .ok (Hex.encode hash.val,
      { store with entries := store.entries.insert (Hex.encode hash.val) tx }) := by
    unfold insert
    rw [hid]
    rfl
  exact ⟨hid, _, hinsert, fun testnet =>
    fetch_eq_ok_iff.mpr ⟨tx, Std.TreeMap.getElem?_insert_self, hid, rfl⟩⟩

namespace Transaction

/-- A transaction that was read is written as the bytes that it was read off exactly if none of its
pushes is too long and no other bytes are a shorter form of it. What is written is always the one
shortest form, and it gives the transaction the hash under which a store keeps and delivers it. -/
theorem encode_of_decode {bytes : Bytes} {testnet : Bool} {tx : Transaction}
    (h : decode bytes testnet = .ok tx) :
    (tx.encode = .ok bytes ↔
      (∀ script ∈ tx.scripts, ∀ data, .push data ∈ script → data.length ≤ 520) ∧
        ∀ other, decode other testnet = .ok tx → bytes.length ≤ other.length) ∧
    ((∃ e, tx.encode = .error e) ↔
      ∃ script ∈ tx.scripts, ∃ data, .push data ∈ script ∧ 520 < data.length) ∧
    ∀ written, tx.encode = .ok written →
      decode written testnet = .ok tx ∧
      (written = bytes ∨ written.length < bytes.length) ∧
      tx.id = .ok (Hex.encode (hash256 written).reverse.val) ∧
      ∀ store : Store, ∃ store',
        store.insert tx = .ok (Hex.encode (hash256 written).reverse.val, store') ∧
          ∀ network, store'.fetch (hash256 written).reverse network =
            .ok { tx with testnet := network } := by
  have hform := decode_eq_ok_iff.mp h
  have hwritable := exists_encode_iff_of_reads hform
  have hshortest : ∀ form written, decode form testnet = .ok tx → tx.encode = .ok written →
      decode written testnet = .ok tx ∧ Shortens written form := by
    intro form written hdecode hwritten
    obtain ⟨hback, hshortens⟩ :=
      writesShortest testnet tx form written (decode_eq_ok_iff.mp hdecode) hwritten
    exact ⟨decode_eq_ok_iff.mpr hback, hshortens⟩
  refine ⟨⟨fun hencode => ?_, ?_⟩, ?_, fun written hwritten => ?_⟩
  · exact ⟨hwritable.mp ⟨bytes, hencode⟩, fun other hother =>
      (hshortest other bytes hother hencode).2.length_le⟩
  · rintro ⟨hpushes, hleast⟩
    obtain ⟨written, hwritten⟩ := hwritable.mpr hpushes
    obtain ⟨hback, hshortens⟩ := hshortest bytes written h hwritten
    rw [← hshortens.eq_of_length_le (hleast written hback)]
    exact hwritten
  · rw [exists_error_iff, hwritable]
    push Not
    rfl
  · obtain ⟨hback, hshortens⟩ := hshortest bytes written h hwritten
    have hhash := hash_of_encode hwritten
    exact ⟨hback, hshortens, (Store.fetch_insert hhash (.empty testnet)).1,
      fun store => (Store.fetch_insert hhash store).2⟩

/-- A transaction whose unlocking script pushes one byte. -/
def onePush : Transaction where
  version := 1
  inputs := [⟨.replicate 32 0x00, 0, [.push [0xff]], finalSequence⟩]
  outputs := []
  locktime := 0
  testnet := false

/-- The form of `onePush` in which the push has the given header. -/
def onePushForm (header : Bytes) : Bytes :=
  Wire.uint32 1 ++ [0x01] ++ List.replicate 36 0x00 ++ [UInt8.ofNat (header.length + 1)] ++
    header ++ [0xff] ++ Wire.uint32 finalSequence ++ [0x00] ++ Wire.uint32 0

theorem encode_onePush_direct : decode (onePushForm [0x01]) false = .ok onePush ∧
    onePush.encode = .ok (onePushForm [0x01]) ∧
      onePush.id = .ok (Hex.encode (hash256 (onePushForm [0x01])).reverse.val) := by
  have hdecode : decode (onePushForm [0x01]) false = .ok onePush :=
    eq_ok_of_toOption (by decide +kernel)
  have hencode : onePush.encode = .ok (onePushForm [0x01]) :=
    eq_ok_of_toOption (by decide +kernel)
  exact ⟨hdecode, hencode, ((encode_of_decode hdecode).2.2 _ hencode).2.2.1⟩

/-- A push of one byte that is read behind a header of two is written behind a header of one. -/
theorem encode_onePush_padded : decode (onePushForm [0x4c, 0x01]) false = .ok onePush ∧
    onePush.encode ≠ .ok (onePushForm [0x4c, 0x01]) ∧
      onePush.id ≠ .ok (Hex.encode (hash256 (onePushForm [0x4c, 0x01])).reverse.val) := by
  refine ⟨eq_ok_of_toOption (by decide +kernel), fun h => ?_, fun h => ?_⟩
  · have hwritten : onePush.encode.toOption ≠ some (onePushForm [0x4c, 0x01]) := by decide +kernel
    rw [h] at hwritten
    exact hwritten rfl
  · have hid : onePush.id.toOption ≠
        some (Hex.encode (hash256 (onePushForm [0x4c, 0x01])).reverse.val) := by decide +kernel
    rw [h] at hid
    exact hid rfl

end Transaction

end CoinSpend
