import CoinSpend.Proofs.Script.Forms
import CoinSpend.Proofs.Transaction.RedeemRule
import Mathlib

/-!
# Unlocking scripts that leave an input without an answer

The check of an input answers whether it may spend its output. It can only fail to do so on the way
to the hash for the signatures, which is over written scripts. An unlocking script takes part in it
only with the redeem script that it pushes last: that may be read off bytes with a header for more
data than a push that is written may have. Such bytes are themselves too long for the stack, so the
run that is never started would refuse the input.

Results:
* `Script.encode_eq_error_iff_of_decode`: why a script that was read cannot be written.
* `Transaction.sigHashBytes_eq_error_iff`: why there are no bytes to sign.
* `Script.LongRedeem.evaluate_eq_false`: what the run would come to.
* `Transaction.verifyInput_answers`: which inputs are left without an answer.
-/

namespace CoinSpend

namespace Script

variable {script : Script} {raw data : Bytes} {e : Error}

/-! ## Scripts that cannot be written -/

/-- A script cannot be written because of its first instruction that cannot be. -/
theorem encode_eq_error_iff : script.encode = .error e ↔
    ∃ before i after, script = before ++ i :: after ∧ (∀ j ∈ before, j.Writable) ∧
      encodeInstruction i = .error e := by
  have hmapM : script.encode = .error e ↔ script.mapM encodeInstruction = .error e := by
    unfold encode
    cases script.mapM encodeInstruction <;> simp [pure, Except.pure]
  rw [hmapM, mapM_eq_error_iff]
  simp only [encodeInstruction_eq_ok_iff]
  rfl

/-- The first push of more than 520 bytes in a script is that of `data`. -/
def FirstLongPush (script : Script) (data : Bytes) : Prop :=
  ∃ before after, script = before ++ .push data :: after ∧
    (∀ short, .push short ∈ before → short.length ≤ 520) ∧ 520 < data.length

/-- A script that was read cannot be written because of its first push that is too long. -/
theorem encode_eq_error_iff_of_decode (h : decode raw = .ok script) :
    script.encode = .error e ↔
      ∃ data, script.FirstLongPush data ∧ e = .pushTooLong data.length := by
  rw [encode_eq_error_iff]
  constructor
  · rintro ⟨before, i, after, rfl, hbefore, he⟩
    have hnot : ¬ i.Writable := by
      intro hwritable
      obtain ⟨bytes, hbytes⟩ := encodeInstruction_eq_ok_iff.mpr hwritable
      cases he.symm.trans hbytes
    obtain ⟨data, rfl, hlong⟩ :=
      (not_writable_iff_of_decode h List.mem_append_cons_self).mp hnot
    refine ⟨data, ⟨before, after, rfl, fun short hshort => hbefore _ hshort, hlong⟩, ?_⟩
    have hrefused : encodeInstruction (.push data) = .error (.pushTooLong data.length) :=
      if_neg (Nat.not_le.mpr hlong)
    exact Except.error.inj (he.symm.trans hrefused)
  · rintro ⟨data, ⟨before, after, rfl, hbefore, hlong⟩, rfl⟩
    refine ⟨before, .push data, after, rfl, fun j hj => ?_, if_neg (Nat.not_le.mpr hlong)⟩
    by_contra hnot
    obtain ⟨short, rfl, hshort⟩ :=
      (not_writable_iff_of_decode h (List.mem_append_left _ hj)).mp hnot
    exact Nat.not_lt.mpr (hbefore short hj) hshort

/-- Data that are pushed by a script are fewer than the bytes that it was read off. -/
theorem length_lt_of_decode (h : decode raw = .ok script) (hdata : .push data ∈ script) :
    data.length < raw.length := by
  obtain ⟨forms, hforms, rfl⟩ := decodeFrom_eq_ok_iff.mp h
  clear h
  induction hforms with
  | nil => cases hdata
  | cons hform _ ih =>
    rw [List.flatten_cons, List.length_append]
    rcases List.mem_cons.mp hdata with rfl | hdata
    · obtain ⟨code, field, rfl, -⟩ := hform
      simp only [List.cons_append, List.length_cons, List.length_append]
      omega
    · have hlt := ih hdata
      omega

/-- Data are read as one push behind a length in two bytes, also if they are more than a push that
is written may have. -/
theorem decode_pushData2 (hdata : data.length < 256 ^ 2) :
    decode (Opcode.pushData2 :: Bytes.ofNatLE 2 data.length ++ data) = .ok [.push data] := by
  have hform : (Instruction.push data).IsForm
      (Opcode.pushData2 :: Bytes.ofNatLE 2 data.length ++ data) := by
    refine ⟨_, _, rfl, rfl, ?_, ?_⟩
    · rw [Bytes.length_ofNatLE]
      rfl
    · rw [Bytes.length_ofNatLE, if_neg (by decide), Bytes.toNatLE_ofNatLE, Nat.mod_eq_of_lt hdata]
  exact decodeFrom_eq_ok_iff.mpr ⟨[_], .cons hform .nil, List.flatten_singleton⟩

/-! ## Redeem scripts that cannot be written -/

/-- What is paid to a script hash is unlocked with a redeem script, in the bytes `raw`, whose first
push that is too long is that of `data`. -/
structure LongRedeem (unlocking locking : Script) (raw data : Bytes) : Prop where
  spend : ∃ before hash, unlocking = before ++ [.push raw] ∧ locking = payToScriptHash hash
  redeem : ∃ redeem, decode raw = .ok redeem ∧ redeem.FirstLongPush data

variable {unlocking locking : Script}

theorem LongRedeem.lt_length (h : LongRedeem unlocking locking raw data) : 520 < raw.length := by
  obtain ⟨-, _, hdecode, before, after, rfl, -, hlong⟩ := h
  exact hlong.trans (length_lt_of_decode hdecode List.mem_append_cons_self)

/-- The bytes of such a redeem script are too long to be pushed, so a run ends at them. -/
theorem LongRedeem.evaluate_eq_false (h : LongRedeem unlocking locking raw data) (ctx : Context) :
    (evaluate ctx (unlocking ++ locking)).value = false := by
  have hlong := h.lt_length
  obtain ⟨⟨before, hash, rfl, rfl⟩, -⟩ := h
  refine Bool.eq_false_of_not_eq_true fun htrue => ?_
  obtain ⟨_, _, _, _, _, hredeem, -⟩ := evaluate_append_payToScriptHash_iff.mp htrue
  exact Nat.not_le.mpr hlong hredeem.length

theorem writable_of_payToScriptHash (hash : FixedBytes 20) :
    ∀ i ∈ payToScriptHash hash, i.Writable := by
  intro i hi
  simp only [payToScriptHash, List.mem_cons, List.not_mem_nil, or_false] at hi
  rcases hi with rfl | rfl | rfl
  · rfl
  · exact hash.property.trans_le (by decide)
  · rfl

end Script

namespace Transaction

variable {tx : Transaction} {index : ℕ} {fetch : Fetcher} {input : Input} {output : Output}
  {code : Script} {e : Error}

/-! ## Inputs that have no hash -/

theorem encodeList_failsWith {α : Type} {p : Error → Prop} {write : α → Except Error Bytes}
    {values : List α} (h : ∀ a ∈ values, FailsWith p (write a)) :
    FailsWith p (encodeList write values) :=
  (FailsWith.mapM h).bind fun _ => .ok _

/-- In the form that is written for a signature, an input is kept from being written by the signed
script only. -/
theorem failsWith_encode_of_mem_signedForm (hcode : code.encode = .error e) :
    ∀ input ∈ (tx.signedForm index code).inputs, FailsWith (· = e) input.encode := by
  intro input hinput
  have hscript : FailsWith (· = e) input.unlocking.encode := by
    have hmem := List.mem_map_of_mem (f := (·.unlocking)) hinput
    rw [unlocking_signedForm, List.mem_map] at hmem
    obtain ⟨i, -, hi⟩ := hmem
    rw [← hi, signedScript]
    split
    · rw [hcode]
      exact .error rfl
    · exact .ok _
  exact (hscript.bind fun _ => .ok _).bind fun _ => .ok _

/-- If the outputs can be written, then there are no bytes to sign exactly if the signed script
cannot be written, and for the same reason. -/
theorem sigHashBytes_eq_error_iff (hindex : index < tx.inputs.length)
    (houtputs : ∀ output ∈ tx.outputs, ∀ i ∈ output.locking, i.Writable) :
    tx.sigHashBytes index code = .error e ↔ code.encode = .error e := by
  cases hcode : code.encode with
  | ok body =>
    have hwritable := Script.exists_encode_iff.mp ⟨body, hcode⟩
    obtain ⟨bytes, hbytes⟩ := (exists_sigHashBytes_iff hindex).mpr ⟨hwritable, houtputs⟩
    rw [hbytes]
    simp
  | error refused =>
    have hnone : ¬ ∃ bytes, tx.sigHashBytes index code = .ok bytes := by
      rw [exists_sigHashBytes_iff hindex, ← Script.exists_encode_iff, hcode]
      simp
    have hwritten : ∀ output ∈ tx.outputs, FailsWith (· = refused) output.encode := by
      intro output houtput
      obtain ⟨bytes, hbytes⟩ := Output.exists_encode_iff.mpr (houtputs output houtput)
      rw [hbytes]
      exact .ok bytes
    have hfails : FailsWith (· = refused) (tx.sigHashBytes index code) := by
      rw [sigHashBytes_eq]
      refine .bind ?_ fun _ => .ok _
      refine (encodeList_failsWith (failsWith_encode_of_mem_signedForm hcode)).bind fun _ => ?_
      exact (encodeList_failsWith hwritten).bind fun _ => .ok _
    obtain ⟨e', he'⟩ := exists_error_iff.mpr hnone
    obtain rfl : e' = refused := hfails e' he'
    rw [he']

/-- With a redeem script, there is no hash exactly if the redeem script cannot be written. -/
theorem sigHash_some_eq_error_iff (hinput : tx.input index = .ok input)
    (houtputs : ∀ output ∈ tx.outputs, ∀ i ∈ output.locking, i.Writable) :
    tx.sigHash index (some code) fetch = .error e ↔ code.encode = .error e := by
  obtain ⟨hindex, -⟩ := List.getElem?_eq_some_iff.mp (input_eq_ok_iff.mp hinput)
  rw [sigHash_some hinput, ← sigHashBytes_eq_error_iff hindex houtputs]
  cases tx.sigHashBytes index code <;> simp [Except.map]

/-! ## Inputs without an answer -/

/-- The check of an input fails exactly if the unlocking script has, for a script hash, a redeem
script that cannot be written. -/
theorem verifyInput_eq_error_iff (hinput : tx.input index = .ok input)
    (hspent : input.spent fetch tx.testnet = .ok output)
    (hlocking : ∀ i ∈ output.locking, i.Writable)
    (houtputs : ∀ output ∈ tx.outputs, ∀ i ∈ output.locking, i.Writable) :
    tx.verifyInput index fetch = .error e ↔ ∃ raw data,
      Script.LongRedeem input.unlocking output.locking raw data ∧
        e = .pushTooLong data.length := by
  cases hform : output.locking.scriptHash? with
  | none =>
    obtain ⟨z, hz⟩ := exists_sigHash_none hinput hspent hlocking houtputs
    rw [verifyInput_of_scriptHash?_eq_none hinput hspent hform, hz]
    constructor
    · rintro ⟨⟩
    · rintro ⟨raw, data, ⟨⟨before, hash, -, hpays⟩, -⟩, -⟩
      cases hform.symm.trans (Script.scriptHash?_eq_some_iff.mpr hpays)
  | some hash =>
    have hpays := Script.scriptHash?_eq_some_iff.mp hform
    rw [verifyInput_eq_of_scriptHash?_eq_some hinput hspent hform]
    constructor
    · intro h
      cases hredeem : input.unlocking.redeemScript? with
      | none =>
        rw [hredeem] at h
        cases h
      | some redeem =>
        obtain ⟨before, raw, hunlocking, hdecode⟩ := Script.redeemScript?_eq_some_iff.mp hredeem
        rw [hredeem] at h
        have hencode := (sigHash_some_eq_error_iff hinput houtputs).mp (map_eq_error_iff.mp h)
        obtain ⟨data, hlong, rfl⟩ := (Script.encode_eq_error_iff_of_decode hdecode).mp hencode
        exact ⟨raw, data, ⟨⟨before, hash, hunlocking, hpays⟩, redeem, hdecode, hlong⟩, rfl⟩
    · rintro ⟨raw, data, ⟨⟨before, _, hunlocking, -⟩, redeem, hdecode, hlong⟩, rfl⟩
      have hencode := (Script.encode_eq_error_iff_of_decode hdecode).mpr ⟨data, hlong, rfl⟩
      rw [Script.redeemScript?_eq_some_iff.mpr ⟨before, raw, hunlocking, hdecode⟩]
      exact map_eq_error_iff.mpr ((sigHash_some_eq_error_iff hinput houtputs).mpr hencode)

/-- The check of an input answers, if the script that it spends and the outputs can be written,
unless the unlocking script pushes last, for a script hash, a redeem script with a push that is too
long. Then it fails, and the error tells the length of the first such push; the run of the program,
with whatever hash, would refuse the input. An unlocking script without pushes that are too long
always has an answer. -/
theorem verifyInput_answers (hinput : tx.input index = .ok input)
    (hspent : input.spent fetch tx.testnet = .ok output)
    (hlocking : ∃ bytes, output.locking.encode = .ok bytes)
    (houtputs : ∀ output ∈ tx.outputs, ∃ bytes, output.encode = .ok bytes) :
    (∀ e, tx.verifyInput index fetch = .error e ↔ ∃ raw data,
      Script.LongRedeem input.unlocking output.locking raw data ∧ e = .pushTooLong data.length) ∧
    (∀ raw data, Script.LongRedeem input.unlocking output.locking raw data →
      520 < raw.length ∧ ∀ z, (tx.runInput input output.locking z).value = false) ∧
    ((∀ data, .push data ∈ input.unlocking → data.length ≤ 520) →
      ∃ accepted, (tx.verifyInput index fetch).map (·.value) = .ok accepted) := by
  have hwritable : ∀ output ∈ tx.outputs, ∀ i ∈ output.locking, i.Writable :=
    fun output houtput => Output.exists_encode_iff.mp (houtputs output houtput)
  have herror : ∀ e, tx.verifyInput index fetch = .error e ↔ ∃ raw data,
      Script.LongRedeem input.unlocking output.locking raw data ∧ e = .pushTooLong data.length :=
    fun e => verifyInput_eq_error_iff hinput hspent (Script.exists_encode_iff.mp hlocking) hwritable
  refine ⟨herror, fun raw data h => ⟨h.lt_length, fun z => h.evaluate_eq_false _⟩, ?_⟩
  intro hshort
  cases hverify : tx.verifyInput index fetch with
  | ok outcome => exact ⟨outcome.value, rfl⟩
  | error e =>
    obtain ⟨raw, data, hlong, -⟩ := (herror e).mp hverify
    obtain ⟨before, _, hunlocking, -⟩ := hlong.spend
    have hraw := hshort raw (by rw [hunlocking]; exact List.mem_append_cons_self)
    exact absurd hlong.lt_length (Nat.not_lt.mpr hraw)

/-- The last push for a script hash is cut short, so there is no redeem script. -/
theorem verifyInput_answers_cutShort :
    (spending [.push [0x02, 0xff]]).input 0 = .ok (firstSpend [.push [0x02, 0xff]]) ∧
      (firstSpend [.push [0x02, 0xff]]).spent (paying payOne) false = .ok ⟨1, payOne⟩ ∧
      (∃ bytes, payOne.encode = .ok bytes) ∧
      (∀ output ∈ (spending [.push [0x02, 0xff]]).outputs, ∃ bytes, output.encode = .ok bytes) ∧
      ∃ accepted, ((spending [.push [0x02, 0xff]]).verifyInput 0 (paying payOne)).map (·.value) =
        .ok accepted := by
  have hinput : (spending [.push [0x02, 0xff]]).input 0 =
      .ok (firstSpend [.push [0x02, 0xff]]) := rfl
  have hspent : (firstSpend [.push [0x02, 0xff]]).spent (paying payOne) false =
      .ok ⟨1, payOne⟩ := rfl
  have hlocking : ∃ bytes, payOne.encode = .ok bytes :=
    Script.exists_encode_iff.mpr (Script.writable_of_payToScriptHash _)
  have houtputs : ∀ output ∈ (spending [.push [0x02, 0xff]]).outputs,
      ∃ bytes, output.encode = .ok bytes := by
    simp [spending]
  refine ⟨hinput, hspent, hlocking, houtputs, ?_⟩
  refine (verifyInput_answers hinput hspent hlocking houtputs).2.2 fun data hdata => ?_
  obtain rfl : data = [0x02, 0xff] := by simpa [firstSpend] using hdata
  decide

/-- A redeem script of one push that is a byte too long to be written. -/
def longRaw : Bytes := Opcode.pushData2 :: Bytes.ofNatLE 2 521 ++ List.replicate 521 0

def payLong : Script := Script.payToScriptHash (Hash.hash160 longRaw)

/-- An unlocking script that was read off bytes leaves an input without an answer. -/
theorem verifyInput_longRaw :
    Script.decode (Opcode.pushData2 :: Bytes.ofNatLE 2 524 ++ longRaw) = .ok [.push longRaw] ∧
      (spending [.push longRaw]).input 0 = .ok (firstSpend [.push longRaw]) ∧
      (firstSpend [.push longRaw]).spent (paying payLong) false = .ok ⟨1, payLong⟩ ∧
      (∃ bytes, payLong.encode = .ok bytes) ∧
      (∀ output ∈ (spending [.push longRaw]).outputs, ∃ bytes, output.encode = .ok bytes) ∧
      (spending [.push longRaw]).verifyInput 0 (paying payLong) = .error (.pushTooLong 521) := by
  have hlength : longRaw.length = 524 := by
    rw [longRaw, List.length_append, List.length_cons, Bytes.length_ofNatLE, List.length_replicate]
  have hdecode : Script.decode longRaw = .ok [.push (List.replicate 521 0)] := by
    have hread := @Script.decode_pushData2 (List.replicate 521 0)
    rw [List.length_replicate] at hread
    exact hread (by decide)
  have hlong : Script.LongRedeem [.push longRaw] payLong longRaw (List.replicate 521 0) :=
    ⟨⟨[], _, rfl, rfl⟩, _, hdecode, [], [], rfl, by simp, by rw [List.length_replicate]; decide⟩
  have hlocking : ∀ i ∈ payLong, i.Writable := Script.writable_of_payToScriptHash _
  refine ⟨?_, rfl, rfl, Script.exists_encode_iff.mpr hlocking, by simp [spending], ?_⟩
  · rw [← hlength]
    exact Script.decode_pushData2 (by rw [hlength]; decide)
  · refine (verifyInput_eq_error_iff rfl rfl hlocking (by simp [spending])).mpr
      ⟨longRaw, _, hlong, ?_⟩
    rw [List.length_replicate]

end Transaction

end CoinSpend
