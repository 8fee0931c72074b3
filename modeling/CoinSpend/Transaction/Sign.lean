import CoinSpend.Ecdsa.PrivateKey
import CoinSpend.Script.Machine
import CoinSpend.Transaction.Wire

/-!
# Spending, checking and signing

The outputs that the inputs of a transaction spend, as a fetcher delivers them, and the hashes that
the signatures of a transaction sign. An input may spend an output if its unlocking script followed
by the output's locking script succeeds. A transaction is good if all its inputs may spend what they
spend and it does not pay out more than that. An input that spends an output to a public key is
unlocked by a signature and that key.
-/

namespace CoinSpend

/-! ## What a transaction spends -/

/-- The output that an input spends. Model of `TxIn.spent_output`. -/
def Input.spent (input : Input) (fetch : Fetcher) (testnet : Bool) : Except Error Output := do
  let tx ← fetch input.prevId testnet
  match tx.outputs[input.prevIndex.toNat]? with
  | none => .error (.noSuchOutput input.prevId input.prevIndex.toNat)
  | some output => .ok output

/-- The amount of all outputs together. -/
def Output.total : List Output → Nat
  | [] => 0
  | output :: outputs => output.amount.toNat + total outputs

namespace Transaction

/-- The amount that a transaction spends and does not pay out, which is negative if it pays out
more. Model of `Transaction.fee`. -/
def fee (tx : Transaction) (fetch : Fetcher) : Except Error Int := do
  let spent ← tx.inputs.mapM fun input => input.spent fetch tx.testnet
  return (Output.total spent : Int) - Output.total tx.outputs

/-- What the signatures of an input sign all of. Model of `SIGHASH_ALL`. -/
def sigHashAll : UInt32 := 1

/-- The bytes that the signature of an input signs: the transaction with `code` as the script of
that input and with empty scripts for the other inputs. Model of what
`Transaction.sig_hash_with_redeem` hashes. -/
def sigHashBytes (tx : Transaction) (index : Nat) (code : Script) : Except Error Bytes := do
  let scripts := (List.range tx.inputs.length).map fun i => if i = index then code else []
  let inputs ← encodeList (fun (input, script) => Input.encodeWith input script)
    (tx.inputs.zip scripts)
  let outputs ← encodeList Output.encode tx.outputs
  return Wire.uint32 tx.version ++ inputs ++ outputs ++ Wire.uint32 tx.locktime
    ++ Wire.uint32 sigHashAll

/-- The hash that the signature of an input signs. In place of the spent output's script it covers
the redeem script, if one is given. Model of `Transaction.sig_hash_with_redeem`. -/
def sigHash (tx : Transaction) (index : Nat) (redeem : Option Script) (fetch : Fetcher) :
    Except Error Nat := do
  let input ← tx.input index
  let code ← match redeem with
    | some script => .ok script
    | none => (·.locking) <$> input.spent fetch tx.testnet
  return Bytes.toNatBE (Hash.hash256 (← tx.sigHashBytes index code)).val

end Transaction

/-! ## Checking transactions -/

/-- The redeem script in an unlocking script: the data that it pushes last. Part of
`Transaction.verifyInput`. -/
def Script.redeemScript? (unlocking : Script) : Option Script := do
  let data ← (← unlocking.getLast?).data?
  (Script.decode data).toOption

namespace Transaction

/-- Runs the unlocking script of an input and the locking script that it spends. Part of
`verifyInput`. -/
def runInput (tx : Transaction) (input : Input) (locking : Script) (sigHash : Nat) : Logged Bool :=
  Script.evaluate ⟨sigHash, tx.version, tx.locktime, input.sequence⟩ (input.unlocking ++ locking)

/-- Whether an input may spend its output. Model of `Transaction.verify_input`. -/
def verifyInput (tx : Transaction) (index : Nat) (fetch : Fetcher) :
    Except Error (Logged Bool) := do
  let input ← tx.input index
  let locking := (← input.spent fetch tx.testnet).locking
  if locking.scriptHash?.isSome then
    match input.unlocking.redeemScript? with
    | none => return ⟨[.noRedeemScript index], false⟩
    | some redeem => return tx.runInput input locking (← tx.sigHash index (some redeem) fetch)
  else return tx.runInput input locking (← tx.sigHash index none fetch)

/-- Whether the given inputs may spend their outputs. The first that may not ends the check. Model
of the loop of `Transaction.verify`. -/
def verifyInputs (tx : Transaction) (fetch : Fetcher) : List Nat → Logged (Except Error Bool)
  | [] => .silent (.ok true)
  | index :: rest =>
    match tx.verifyInput index fetch with
    | .error e => .silent (.error e)
    | .ok ⟨log, true⟩ => (tx.verifyInputs fetch rest).after log
    | .ok ⟨log, false⟩ => ⟨log ++ [.inputRejected index], .ok false⟩

/-- Whether a transaction is good. Model of `Transaction.verify`. -/
def verify (tx : Transaction) (fetch : Fetcher) : Logged (Except Error Bool) :=
  match tx.fee fetch with
  | .error e => .silent (.error e)
  | .ok fee =>
    if fee < 0 then ⟨[.negativeFee fee], .ok false⟩
    else tx.verifyInputs fetch (List.range tx.inputs.length)

end Transaction

/-! ## Signing transactions -/

namespace Transaction

/-- The unlocking script of a signature and a public key in its compressed form. Part of
`withSignature`. -/
def unlockingScript (key : PrivateKey) (sigHash : Nat) : Except Error Script := do
  let signature ← key.sign sigHash
  let publicKey ← key.sec true
  return [.push (signature.toDer ++ [UInt8.ofNat sigHashAll.toNat]), .push publicKey]

/-- The transaction with an input signed by a key. Model of `Transaction.sign_input` up to its check
of the input. -/
def withSignature (tx : Transaction) (index : Nat) (key : PrivateKey) (fetch : Fetcher) :
    Except Error Transaction := do
  tx.setUnlocking index (← unlockingScript key (← tx.sigHash index none fetch))

/-- Signs an input with a key. The result is the transaction afterwards, and whether the input may
now spend its output. Model of `Transaction.sign_input`. -/
def signInput (tx : Transaction) (index : Nat) (key : PrivateKey) (fetch : Fetcher) :
    Transaction × Except Error (Logged Bool) :=
  match tx.withSignature index key fetch with
  | .error e => (tx, .error e)
  | .ok signed =>
    (signed, (signed.verifyInput index fetch).map fun outcome =>
      if outcome.value then outcome else ⟨outcome.log ++ [.signedInVain index], false⟩)

end Transaction

end CoinSpend
