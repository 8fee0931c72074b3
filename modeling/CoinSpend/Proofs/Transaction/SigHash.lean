import CoinSpend.Proofs.Transaction.RoundTrip
import CoinSpend.Transaction.Sign
import Mathlib

/-!
# What a signature commits to

The bytes that a signature of an input signs are a written transaction with the kind of the
signature behind it: that input carries the signed script, all other inputs carry none. A written
transaction is read back in one way only, so the signed bytes determine the whole spend.

Results:
* `Transaction.sigHashBytes_eq_ok_iff`: the signed bytes as a written transaction.
* `Transaction.exists_sigHashBytes_iff`: when there are bytes to sign.
* `Transaction.SameSpend.sigHashBytes_eq`, `Transaction.SameSpend.sigHash_eq`: no unlocking script
  takes part in the signed bytes and in their hash.
* `Transaction.sigHashBytes_commits`: what equal bytes have in common.
-/

namespace CoinSpend

/-- Two inputs spend the same output with the same sequence number. -/
structure Input.SameSpend (a b : Input) : Prop where
  prevId : a.prevId = b.prevId
  prevIndex : a.prevIndex = b.prevIndex
  sequence : a.sequence = b.sequence

theorem Input.SameSpend.setUnlocking {a b : Input} (h : a.SameSpend b) (script : Script) :
    { a with unlocking := script } = { b with unlocking := script } := by
  rw [Input.mk.injEq]
  exact ⟨h.prevId, h.prevIndex, rfl, h.sequence⟩

theorem Input.SameSpend.spent_eq {a b : Input} (h : a.SameSpend b) (fetch : Fetcher)
    (testnet : Bool) : a.spent fetch testnet = b.spent fetch testnet := by
  unfold Input.spent
  rw [h.prevId, h.prevIndex]

theorem Input.sameSpend_of_setUnlocking_eq {a b : Input} {script script' : Script}
    (h : { a with unlocking := script } = { b with unlocking := script' }) :
    a.SameSpend b ∧ script = script' := by
  rw [Input.mk.injEq] at h
  obtain ⟨hid, hindex, hscript, hsequence⟩ := h
  exact ⟨⟨hid, hindex, hsequence⟩, hscript⟩

namespace Transaction

/-- Two transactions differ in nothing but their unlocking scripts and the network. -/
structure SameSpend (tx tx' : Transaction) : Prop where
  version : tx.version = tx'.version
  inputs : List.Forall₂ Input.SameSpend tx.inputs tx'.inputs
  outputs : tx.outputs = tx'.outputs
  locktime : tx.locktime = tx'.locktime

/-- The script of an input in the transaction that is written for a signature. -/
def signedScript (index : ℕ) (code : Script) (i : ℕ) : Script := if i = index then code else []

/-- The transaction that is written for a signature of an input: that input has the signed script in
place of its own, and the other inputs have none. -/
def signedForm (tx : Transaction) (index : ℕ) (code : Script) : Transaction :=
  { tx with
    inputs := tx.inputs.mapIdx fun i input =>
      { input with unlocking := signedScript index code i } }

variable {tx tx' : Transaction} {index index' : ℕ} {code code' : Script}

/-! ## The signed bytes as a written transaction -/

theorem inputs_signedForm (tx : Transaction) (index : ℕ) (code : Script) :
    (tx.signedForm index code).inputs =
      (tx.inputs.zip ((List.range tx.inputs.length).map (signedScript index code))).map
        fun p => { p.1 with unlocking := p.2 } := by
  apply List.ext_getElem
  · simp [signedForm]
  · intro i h h'
    simp [signedForm]

/-- The signed bytes are the signed form, behind which stands the kind of the signature. -/
theorem sigHashBytes_eq (tx : Transaction) (index : ℕ) (code : Script) :
    tx.sigHashBytes index code =
      (tx.signedForm index code).encode >>= fun body => .ok (body ++ Wire.uint32 sigHashAll) := by
  have hinputs : encodeList (fun p : Input × Script => p.1.encodeWith p.2)
      (tx.inputs.zip ((List.range tx.inputs.length).map (signedScript index code))) =
      encodeList Input.encode (tx.signedForm index code).inputs := by
    rw [inputs_signedForm, encodeList_map]
    rfl
  unfold sigHashBytes encode
  simp only [bind_assoc]
  change (encodeList (fun p : Input × Script => p.1.encodeWith p.2)
    (tx.inputs.zip ((List.range tx.inputs.length).map (signedScript index code))) >>= _) = _
  rw [hinputs]
  rfl

theorem sigHashBytes_eq_ok_iff {bytes : Bytes} :
    tx.sigHashBytes index code = .ok bytes ↔
      ∃ body, (tx.signedForm index code).encode = .ok body ∧
        body ++ Wire.uint32 sigHashAll = bytes := by
  rw [sigHashBytes_eq, bind_eq_ok_iff]
  simp only [Except.ok.injEq]

theorem unlocking_signedForm (tx : Transaction) (index : ℕ) (code : Script) :
    (tx.signedForm index code).inputs.map (·.unlocking) =
      (List.range tx.inputs.length).map (signedScript index code) := by
  apply List.ext_getElem
  · simp [signedForm]
  · intro i h h'
    simp [signedForm]

/-- There are bytes to sign if the signed script and the scripts of the outputs can be written. -/
theorem exists_sigHashBytes_iff (hindex : index < tx.inputs.length) :
    (∃ bytes, tx.sigHashBytes index code = .ok bytes) ↔
      (∀ i ∈ code, i.Writable) ∧ ∀ output ∈ tx.outputs, ∀ i ∈ output.locking, i.Writable := by
  have hcode : (∀ j < tx.inputs.length, ∀ i ∈ signedScript index code j, i.Writable) ↔
      ∀ i ∈ code, i.Writable := by
    constructor
    · intro h i hi
      refine h index hindex i ?_
      rw [signedScript, if_pos rfl]
      exact hi
    · intro h j _ i hi
      unfold signedScript at hi
      split at hi
      · exact h i hi
      · simp at hi
  simp only [sigHashBytes_eq_ok_iff]
  rw [exists_image_iff, exists_encode_iff, scripts, unlocking_signedForm, List.forall_mem_append,
    List.forall_mem_map, List.forall_mem_map]
  simp only [List.mem_range, hcode]
  rfl

/-! ## What takes no part -/

theorem SameSpend.signedForm_eq (h : tx.SameSpend tx') (index : ℕ) (code : Script) :
    { tx.signedForm index code with testnet := tx'.testnet } = tx'.signedForm index code := by
  have hinputs : (tx.signedForm index code).inputs = (tx'.signedForm index code).inputs := by
    have hlength : tx.inputs.length = tx'.inputs.length := h.inputs.length_eq
    apply List.ext_getElem
    · simpa [signedForm] using hlength
    · intro i hi hi'
      simp only [signedForm, List.length_mapIdx] at hi hi'
      simp only [signedForm, List.getElem_mapIdx]
      exact (h.inputs.get hi hi').setUnlocking _
  rw [Transaction.mk.injEq]
  exact ⟨h.version, hinputs, h.outputs, h.locktime, rfl⟩

/-- Unlocking scripts and the network take no part in the signed bytes. -/
theorem SameSpend.sigHashBytes_eq (h : tx.SameSpend tx') (index : ℕ) (code : Script) :
    tx.sigHashBytes index code = tx'.sigHashBytes index code := by
  have hencode : (tx.signedForm index code).encode = (tx'.signedForm index code).encode := by
    rw [← h.signedForm_eq index code]
    rfl
  rw [Transaction.sigHashBytes_eq, Transaction.sigHashBytes_eq, hencode]

/-! ## What equal bytes have in common -/

/-- Inputs that are written alike for a signature are the same spend and carry the same script. -/
theorem sameSpend_of_signedForm_eq
    (h : (tx.signedForm index code).inputs = (tx'.signedForm index' code').inputs) :
    List.Forall₂ Input.SameSpend tx.inputs tx'.inputs ∧
      ∀ i < tx.inputs.length, signedScript index code i = signedScript index' code' i := by
  have hlength : tx.inputs.length = tx'.inputs.length := by
    simpa [signedForm] using congrArg List.length h
  have hmember : ∀ i (hi : i < tx.inputs.length) (hi' : i < tx'.inputs.length),
      tx.inputs[i].SameSpend tx'.inputs[i] ∧
        signedScript index code i = signedScript index' code' i := by
    intro i hi hi'
    apply Input.sameSpend_of_setUnlocking_eq
    have hsome := congrArg (·[i]?) h
    simpa [signedForm, hi, hi'] using hsome
  constructor
  · rw [List.forall₂_iff_get]
    exact ⟨hlength, fun i hi hi' => (hmember i hi hi').1⟩
  · intro i hi
    exact (hmember i hi (hlength ▸ hi)).2

/-- If each input carries the same script for two signatures, then both sign the same script, and it
is that of the same input unless it is empty. -/
theorem eq_of_signedScript_eq {count : ℕ} (hindex : index < count) (hindex' : index' < count)
    (h : ∀ i < count, signedScript index code i = signedScript index' code' i) :
    code = code' ∧ (code ≠ [] → index = index') := by
  have hfirst := h index hindex
  have hsecond := h index' hindex'
  unfold signedScript at hfirst hsecond
  rw [if_pos rfl] at hfirst hsecond
  by_cases heq : index = index'
  · rw [if_pos heq] at hfirst
    exact ⟨hfirst, fun _ => heq⟩
  · rw [if_neg heq] at hfirst
    rw [if_neg (Ne.symm heq)] at hsecond
    exact ⟨hfirst.trans hsecond, fun hne => absurd hfirst hne⟩

/-- Equal bytes are signed only for the same spend: the same version, locktime and outputs, and the
same inputs apart from their unlocking scripts. They are signed for the same script and, unless it
is empty, for the same input. Conversely, the unlocking scripts and the network take no part in the
bytes, and there are bytes to sign if the signed script and those of the outputs can be written.
Byte strings in memory are shorter than `2 ^ 64`. -/
theorem sigHashBytes_commits (hindex : index < tx.inputs.length)
    (hindex' : index' < tx'.inputs.length) :
    (∀ bytes, tx.sigHashBytes index code = .ok bytes → tx'.sigHashBytes index' code' = .ok bytes →
      bytes.length < 2 ^ 64 → tx.SameSpend tx' ∧ code = code' ∧ (code ≠ [] → index = index')) ∧
      (tx.SameSpend tx' → tx.sigHashBytes index code = tx'.sigHashBytes index code) ∧
      ((∃ bytes, tx.sigHashBytes index code = .ok bytes) ↔
        (∀ i ∈ code, i.Writable) ∧ ∀ output ∈ tx.outputs, ∀ i ∈ output.locking, i.Writable) := by
  refine ⟨?_, fun h => h.sigHashBytes_eq index code, exists_sigHashBytes_iff hindex⟩
  intro bytes h h' hlength
  obtain ⟨body, hbody, rfl⟩ := sigHashBytes_eq_ok_iff.mp h
  obtain ⟨body', hbody', heq⟩ := sigHashBytes_eq_ok_iff.mp h'
  obtain rfl : body' = body := List.append_cancel_right heq
  rw [List.length_append] at hlength
  have hform := eq_of_encode hbody hbody' (by omega)
  rw [Transaction.mk.injEq] at hform
  obtain ⟨hversion, hinputs, houtputs, hlocktime, -⟩ := hform
  obtain ⟨hspends, hscripts⟩ := sameSpend_of_signedForm_eq hinputs
  have hcount : tx.inputs.length = tx'.inputs.length := hspends.length_eq
  exact ⟨⟨hversion, hspends, houtputs, hlocktime⟩,
    eq_of_signedScript_eq hindex (hcount ▸ hindex') hscripts⟩

/-- Two spends, the second one with the given unlocking script. -/
def twoSpends (testnet : Bool) (unlocking : Script) : Transaction where
  version := 1
  inputs := [⟨⟨List.replicate 32 0x11, rfl⟩, 0, [], finalSequence⟩,
    ⟨⟨List.replicate 32 0x22, rfl⟩, 1, unlocking, 0⟩]
  outputs := [⟨100000, [.op Opcode.checkSig]⟩]
  locktime := 0
  testnet := testnet

/-- The bytes for a signature of the first spend are not those for the second one, and unlocking the
second one on another network does not change them. -/
theorem sigHashBytes_twoSpends :
    0 < (twoSpends false []).inputs.length ∧ 1 < (twoSpends false []).inputs.length ∧
      ∃ bytes, (twoSpends false []).sigHashBytes 0 [.op Opcode.dup] = .ok bytes ∧
        bytes.length < 2 ^ 64 ∧
        (twoSpends false []).sigHashBytes 1 [.op Opcode.dup] ≠ .ok bytes ∧
        (twoSpends true [.push [1]]).sigHashBytes 0 [.op Opcode.dup] = .ok bytes := by
  have hfirst : 0 < (twoSpends false []).inputs.length := by decide
  have hsecond : 1 < (twoSpends false []).inputs.length := by decide
  have hunlocked : 0 < (twoSpends true [.push [1]]).inputs.length := by decide
  have hsize : ((twoSpends false []).sigHashBytes 0 [.op Opcode.dup]).toOption.map List.length =
      some 107 := by decide +kernel
  obtain ⟨bytes, hbytes, hlength⟩ := exists_ok_of_length_toOption hsize
  have hbound : bytes.length < 2 ^ 64 := by
    rw [hlength]
    decide
  have hspend : (twoSpends false []).SameSpend (twoSpends true [.push [1]]) :=
    ⟨rfl, .cons ⟨rfl, rfl, rfl⟩ (.cons ⟨rfl, rfl, rfl⟩ .nil), rfl, rfl⟩
  refine ⟨hfirst, hsecond, bytes, hbytes, hbound, ?_, ?_⟩
  · intro hother
    have hindex := ((sigHashBytes_commits hfirst hsecond).1 bytes hbytes hother hbound).2.2
    exact absurd (hindex (by decide)) (by decide)
  · have hunsigned := (@sigHashBytes_commits _ _ 0 0 [.op Opcode.dup] [] hfirst hunlocked).2.1
    rw [← hunsigned hspend]
    exact hbytes

/-! ## The hash -/

section Hash

variable {fetch : Fetcher} {input : Input}

/-- Without a redeem script, the hash is that for the spent output's script. -/
theorem sigHash_none {output : Output} (hinput : tx.input index = .ok input)
    (hspent : input.spent fetch tx.testnet = .ok output) :
    tx.sigHash index none fetch = (tx.sigHashBytes index output.locking).map fun bytes =>
      Bytes.toNatBE (Hash.hash256 bytes).val := by
  unfold sigHash
  rw [hinput, ok_bind, hspent]
  rfl

/-- With a redeem script, the hash is that for this script. -/
theorem sigHash_some (hinput : tx.input index = .ok input) (redeem : Script) (fetch : Fetcher) :
    tx.sigHash index (some redeem) fetch = (tx.sigHashBytes index redeem).map fun bytes =>
      Bytes.toNatBE (Hash.hash256 bytes).val := by
  unfold sigHash
  rw [hinput, ok_bind]
  rfl

/-- Unlocking scripts take no part in the hash, nor in the reasons why there is none. -/
theorem SameSpend.sigHash_eq (h : tx.SameSpend tx') (htestnet : tx.testnet = tx'.testnet)
    (index : ℕ) (redeem : Option Script) (fetch : Fetcher) :
    tx.sigHash index redeem fetch = tx'.sigHash index redeem fetch := by
  have hlength : tx.inputs.length = tx'.inputs.length := h.inputs.length_eq
  unfold sigHash
  rcases Nat.lt_or_ge index tx.inputs.length with hindex | hindex
  · have hindex' : index < tx'.inputs.length := hlength ▸ hindex
    have hinput : tx.input index = .ok tx.inputs[index] :=
      input_eq_ok_iff.mpr (List.getElem?_eq_getElem hindex)
    have hinput' : tx'.input index = .ok tx'.inputs[index] :=
      input_eq_ok_iff.mpr (List.getElem?_eq_getElem hindex')
    have hspend : tx.inputs[index].SameSpend tx'.inputs[index] := h.inputs.get hindex hindex'
    rw [hinput, hinput', ok_bind, ok_bind, hspend.spent_eq, htestnet]
    simp only [h.sigHashBytes_eq]
  · rw [input_eq_error_iff.mpr ⟨hindex, rfl⟩, input_eq_error_iff.mpr ⟨hlength ▸ hindex, rfl⟩,
      hlength]
    rfl

/-- There is a hash to sign if the spent output's script and the scripts of the outputs can be
written. -/
theorem exists_sigHash_none {output : Output} (hinput : tx.input index = .ok input)
    (hspent : input.spent fetch tx.testnet = .ok output)
    (hcode : ∀ i ∈ output.locking, i.Writable)
    (houtputs : ∀ output ∈ tx.outputs, ∀ i ∈ output.locking, i.Writable) :
    ∃ z, tx.sigHash index none fetch = .ok z := by
  obtain ⟨hindex, -⟩ := List.getElem?_eq_some_iff.mp (input_eq_ok_iff.mp hinput)
  obtain ⟨bytes, hbytes⟩ := (exists_sigHashBytes_iff hindex).mpr ⟨hcode, houtputs⟩
  rw [sigHash_none hinput hspent, hbytes]
  exact ⟨_, rfl⟩

theorem exists_sigHash_some (hinput : tx.input index = .ok input) (hcode : ∀ i ∈ code, i.Writable)
    (houtputs : ∀ output ∈ tx.outputs, ∀ i ∈ output.locking, i.Writable) (fetch : Fetcher) :
    ∃ z, tx.sigHash index (some code) fetch = .ok z := by
  obtain ⟨hindex, -⟩ := List.getElem?_eq_some_iff.mp (input_eq_ok_iff.mp hinput)
  obtain ⟨bytes, hbytes⟩ := (exists_sigHashBytes_iff hindex).mpr ⟨hcode, houtputs⟩
  rw [sigHash_some hinput, hbytes]
  exact ⟨_, rfl⟩

theorem sigHash_lt {redeem : Option Script} {z : ℕ} (h : tx.sigHash index redeem fetch = .ok z) :
    z < 256 ^ 32 := by
  have hhash : ∀ {x : Except Error Script}, (x >>= fun code => tx.sigHashBytes index code >>=
      fun bytes => .ok (Bytes.toNatBE (Hash.hash256 bytes).val)) = .ok z → z < 256 ^ 32 := by
    intro x hx
    obtain ⟨code, -, hx⟩ := bind_eq_ok_iff.mp hx
    obtain ⟨bytes, -, hx⟩ := bind_eq_ok_iff.mp hx
    have hlt := Bytes.toNatBE_lt (Hash.hash256 bytes).val
    rw [(Hash.hash256 bytes).property, Except.ok.inj hx] at hlt
    exact hlt
  obtain ⟨input, -, h⟩ := bind_eq_ok_iff.mp h
  cases redeem with
  | none => exact hhash h
  | some script => exact hhash (x := .ok script) h

end Hash

end Transaction

end CoinSpend
