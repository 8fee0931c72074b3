import CoinSpend.Proofs.Transaction.Independence
import CoinSpend.Proofs.Transaction.Refusal
import Mathlib

/-!
# Signing happens as a whole or not at all

The unlocking script is put into the transaction before the input is checked again, and that check
may fail in its own way. It does not: what has a hash to sign has one again, and a redeem script
that is read off the bytes of a public key is short enough to be written. So a signature that fails
has changed nothing, whatever kind of output the input spends.

Results:
* `newUnlocking_eq_ok_iff`, `newUnlocking_eq_error_iff`: what signing puts in, and why it cannot.
* `exists_verifyInput_replaceUnlocking`: the check after a signature has an answer.
* `signInput_atomic`: what signing comes to.
-/

namespace CoinSpend.Transaction

variable {tx : Transaction} {index : ℕ} {key : PrivateKey} {fetch : Fetcher} {script : Script}
  {e : Error}

/-! ## The new unlocking script -/

/-- Signing puts in a signature of the input's hash and the compressed public key. -/
theorem newUnlocking_eq_ok_iff : tx.newUnlocking index key fetch = .ok script ↔
    ∃ z sig sec, tx.sigHash index none fetch = .ok z ∧ key.sign z = .ok sig ∧
      key.sec true = .ok sec ∧ [.push (signatureElement sig), .push sec] = script := by
  unfold newUnlocking unlockingScript
  simp only [bind_eq_ok_iff, pure, Except.pure, Except.ok.injEq]
  constructor
  · rintro ⟨z, hz, sig, hsig, sec, hsec, rfl⟩
    exact ⟨z, sig, sec, hz, hsig, hsec, rfl⟩
  · rintro ⟨z, sig, sec, hz, hsig, hsec, rfl⟩
    exact ⟨z, hz, sig, hsig, sec, hsec, rfl⟩

/-- There is nothing to put in if there is no hash to sign, or no signature of it. -/
theorem newUnlocking_eq_error_iff : tx.newUnlocking index key fetch = .error e ↔
    tx.sigHash index none fetch = .error e ∨
      ∃ z, tx.sigHash index none fetch = .ok z ∧ key.sign z = .error e := by
  obtain ⟨sec, hsec, -⟩ := key.exists_sec
  unfold newUnlocking unlockingScript
  rw [hsec]
  cases tx.sigHash index none fetch with
  | error e' => simp
  | ok z => cases hsign : key.sign z <;> simp [hsign, pure, Except.pure]

/-! ## The check afterwards -/

/-- An input with a hash to sign exists, what it spends is delivered, and all scripts in the signed
bytes can be written. -/
theorem exists_spent_of_sigHash {z : ℕ} (h : tx.sigHash index none fetch = .ok z) :
    ∃ input output, tx.input index = .ok input ∧ input.spent fetch tx.testnet = .ok output ∧
      (∀ i ∈ output.locking, i.Writable) ∧
      ∀ output ∈ tx.outputs, ∀ i ∈ output.locking, i.Writable := by
  obtain ⟨input, hinput, hcode⟩ := bind_eq_ok_iff.mp h
  cases hspent : input.spent fetch tx.testnet with
  | error e =>
    rw [hspent] at hcode
    cases hcode
  | ok output =>
    rw [sigHash_none hinput hspent] at h
    obtain ⟨bytes, hbytes, -⟩ := map_eq_ok_iff.mp h
    obtain ⟨hindex, -⟩ := List.getElem?_eq_some_iff.mp (input_eq_ok_iff.mp hinput)
    exact ⟨input, output, hinput, hspent, (exists_sigHashBytes_iff hindex).mp ⟨bytes, hbytes⟩⟩

theorem input_replaceUnlocking {input : Input} (h : tx.input index = .ok input) (script : Script) :
    (tx.replaceUnlocking index script).input index = .ok { input with unlocking := script } := by
  rw [input_eq_ok_iff] at h ⊢
  rw [replaceUnlocking, List.getElem?_modify_eq, h]
  rfl

/-- The bytes of a public key are too few for a redeem script that cannot be written. -/
theorem length_le_of_newUnlocking {before : Script} {raw : Bytes}
    (h : tx.newUnlocking index key fetch = .ok (before ++ [.push raw])) : raw.length ≤ 520 := by
  obtain ⟨z, sig, sec, -, -, hsec, hscript⟩ := newUnlocking_eq_ok_iff.mp h
  obtain ⟨sec', hsec', hlength, -⟩ := key.exists_sec
  obtain rfl : sec = sec' := Except.ok.inj (hsec.symm.trans hsec')
  have hlast := congrArg List.getLast? hscript
  rw [List.getLast?_concat] at hlast
  cases hlast
  rw [hlength]
  decide

/-- The check after a signature has an answer. -/
theorem exists_verifyInput_replaceUnlocking (h : tx.newUnlocking index key fetch = .ok script) :
    ∃ checked, (tx.replaceUnlocking index script).verifyInput index fetch = .ok checked := by
  obtain ⟨z, -, -, hz, -⟩ := newUnlocking_eq_ok_iff.mp h
  obtain ⟨input, output, hinput, hspent, hlocking, houtputs⟩ := exists_spent_of_sigHash hz
  by_contra hnone
  obtain ⟨e, he⟩ := exists_error_iff.mpr hnone
  have hsigned := input_replaceUnlocking hinput script
  obtain ⟨raw, data, hlong, -⟩ := (verifyInput_eq_error_iff hsigned hspent hlocking houtputs).mp he
  obtain ⟨before, hash, rfl, -⟩ := hlong.spend
  exact Nat.not_lt.mpr (length_le_of_newUnlocking h) hlong.lt_length

/-! ## Signing -/

/-- If there is nothing to put in, signing changes nothing and tells why. -/
theorem signInput_of_error (h : tx.newUnlocking index key fetch = .error e) :
    tx.signInput index key fetch = (tx, .error e) := by
  apply Prod.ext
  · rw [signInput_fst, h]
  · rw [signInput_snd, h]
    rfl

/-- If there is, then the outcome of signing is that of the check afterwards. -/
theorem signInput_of_ok {checked : Logged Bool}
    (h : tx.newUnlocking index key fetch = .ok script)
    (hchecked : (tx.replaceUnlocking index script).verifyInput index fetch = .ok checked) :
    tx.signInput index key fetch = (tx.replaceUnlocking index script, .ok
      ⟨if checked.value then checked.log else checked.log ++ [.signedInVain index],
        checked.value⟩) := by
  have hsigned : (tx.signInput index key fetch).1 = tx.replaceUnlocking index script := by
    rw [signInput_fst, h]
  apply Prod.ext hsigned
  rw [signInput_snd, hsigned, h, ok_bind, hchecked]
  obtain ⟨log, value⟩ := checked
  cases value <;> rfl

/-- Either signing fails and leaves the transaction as it was; then there is no hash to sign for the
input, or no signature of it. Or the unlocking script of the input, and nothing else, is replaced by
a signature of that hash and the compressed public key, and the outcome is that of the check of the
input in the transaction afterwards, which has one. -/
theorem signInput_atomic (tx : Transaction) (index : ℕ) (key : PrivateKey) (fetch : Fetcher) :
    (∃ e, tx.signInput index key fetch = (tx, .error e) ∧
      (tx.sigHash index none fetch = .error e ∨
        ∃ z, tx.sigHash index none fetch = .ok z ∧ key.sign z = .error e)) ∨
    ∃ z sig sec input signed checked, tx.sigHash index none fetch = .ok z ∧
      key.sign z = .ok sig ∧ key.sec true = .ok sec ∧ tx.inputs[index]? = some input ∧
      signed = { tx with
        inputs := tx.inputs.set index
          { input with unlocking := [.push (sig.toDer ++ [0x01]), .push sec] } } ∧
      signed.verifyInput index fetch = .ok checked ∧
      tx.signInput index key fetch = (signed, .ok
        ⟨if checked.value then checked.log else checked.log ++ [.signedInVain index],
          checked.value⟩) := by
  cases hnew : tx.newUnlocking index key fetch with
  | error e => exact .inl ⟨e, signInput_of_error hnew, newUnlocking_eq_error_iff.mp hnew⟩
  | ok script =>
    obtain ⟨checked, hchecked⟩ := exists_verifyInput_replaceUnlocking hnew
    have hsign := signInput_of_ok hnew hchecked
    obtain ⟨z, sig, sec, hz, hsig, hsec, rfl⟩ := newUnlocking_eq_ok_iff.mp hnew
    obtain ⟨input, -, hinput, -⟩ := exists_spent_of_sigHash hz
    rw [input_eq_ok_iff] at hinput
    refine .inr ⟨z, sig, sec, input, _, checked, hz, hsig, hsec, hinput, ?_, hchecked, hsign⟩
    rw [replaceUnlocking, List.modify_eq_set_getElem?, hinput]
    rfl

end CoinSpend.Transaction
