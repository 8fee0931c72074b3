import CoinSpend.Hash.Digest
import CoinSpend.Script.Codec

/-!
# Transactions

A transaction spends outputs of earlier transactions and makes new ones. The ids of the earlier
transactions are kept in the order in which they are displayed, which is the reverse of that on the
wire. Block explorers serve a longer form with witness data, which are dropped.

* `Transaction.input_eq_error_iff`: the inputs that exist.
-/

namespace CoinSpend

/-! ## Transactions and their parts -/

/-- The sequence number of an input that asks for nothing. Model of `DEFAULT_SEQUENCE`. -/
def finalSequence : UInt32 := 0xffffffff

/-- A spend of an output: its transaction, its place there, and the script that unlocks it. Model of
`TxIn`. -/
structure Input where
  prevId : FixedBytes 32
  prevIndex : UInt32
  unlocking : Script
  sequence : UInt32
deriving DecidableEq

/-- An amount and the script that locks it. Model of `TxOut`. -/
structure Output where
  amount : UInt64
  locking : Script
deriving DecidableEq, Repr

/-- A transaction, with the network whose transactions its inputs spend. Model of `Transaction`. -/
structure Transaction where
  version : UInt32
  inputs : List Input
  outputs : List Output
  locktime : UInt32
  testnet : Bool
deriving DecidableEq

/-- Delivers the transaction with an id, for a network. Model of `TxFetcher`. -/
abbrev Fetcher := FixedBytes 32 → Bool → Except Error Transaction

/-- The written form of an input: the output that it spends. Model of the display of `TxIn`. -/
def Input.render (input : Input) : String :=
  s!"{Hex.encode input.prevId.val}:{input.prevIndex.toNat}"

/-- The written form of an output. Model of the display of `TxOut`. -/
def Output.render (output : Output) : String :=
  s!"{output.amount.toNat}:{output.locking.render}"

namespace Transaction

/-- The input with an index. Model of `Transaction.input`. -/
def input (tx : Transaction) (index : Nat) : Except Error Input :=
  match tx.inputs[index]? with
  | none => .error (.noSuchInput index tx.inputs.length)
  | some input => .ok input

/-- The transaction with another unlocking script for one of its inputs. Model of
`Transaction.set_script_sig`. -/
def setUnlocking (tx : Transaction) (index : Nat) (script : Script) : Except Error Transaction := do
  let input ← tx.input index
  return { tx with inputs := tx.inputs.set index { input with unlocking := script } }

theorem input_eq_error_iff {tx : Transaction} {index : Nat} {e : Error} :
    tx.input index = .error e ↔
      tx.inputs.length ≤ index ∧ e = .noSuchInput index tx.inputs.length := by
  unfold input
  split
  · next h => simp [List.getElem?_eq_none_iff.mp h, eq_comm]
  · next h =>
    obtain ⟨hlt, -⟩ := List.getElem?_eq_some_iff.mp h
    have hle : ¬ tx.inputs.length ≤ index := Nat.not_le.mpr hlt
    simp [hle]

theorem input_eq_ok_iff {tx : Transaction} {index : Nat} {input : Input} :
    tx.input index = .ok input ↔ tx.inputs[index]? = some input := by
  unfold Transaction.input
  cases tx.inputs[index]? <;> simp

end Transaction

/-! ## Transactions as bytes -/

/-- Writes a 32-bit number, least significant byte first. -/
def Wire.uint32 (value : UInt32) : Bytes := Bytes.ofNatLE 4 value.toNat

/-- Writes a 64-bit number, least significant byte first. -/
def Wire.uint64 (value : UInt64) : Bytes := Bytes.ofNatLE 8 value.toNat

namespace Input

/-- Writes an input with a script in the place of its own. Model of `TxIn.serialize_with_script`. -/
def encodeWith (input : Input) (script : Script) : Except Error Bytes := do
  let script ← script.encodeSized
  return input.prevId.reverse.val ++ Wire.uint32 input.prevIndex ++ script
    ++ Wire.uint32 input.sequence

/-- Writes an input. Model of `TxIn.serialize`. -/
def encode (input : Input) : Except Error Bytes := input.encodeWith input.unlocking

/-- Reads an input. Model of `TxIn.parse`. -/
def read : Reader Input := do
  let prevId ← Reader.take 32
  let prevIndex ← Reader.uint32
  let unlocking ← Script.read
  let sequence ← Reader.uint32
  return ⟨prevId.reverse, prevIndex, unlocking, sequence⟩

end Input

namespace Output

/-- Writes an output. Model of `TxOut.serialize`. -/
def encode (output : Output) : Except Error Bytes := do
  return Wire.uint64 output.amount ++ (← output.locking.encodeSized)

/-- Reads an output. Model of `TxOut.parse`. -/
def read : Reader Output := do
  let amount ← Reader.uint64
  return ⟨amount, ← Script.read⟩

end Output

namespace Transaction

/-- Writes the number of values and the values one after another. -/
def encodeList {α : Type} (encode : α → Except Error Bytes) (values : List α) :
    Except Error Bytes := do
  return Varint.encode values.length ++ (← values.mapM encode).flatten

/-- Writes a transaction. Model of `Transaction.serialize`. -/
def encode (tx : Transaction) : Except Error Bytes := do
  let inputs ← encodeList Input.encode tx.inputs
  let outputs ← encodeList Output.encode tx.outputs
  return Wire.uint32 tx.version ++ inputs ++ outputs ++ Wire.uint32 tx.locktime

/-- Reads a transaction of a network. Model of `Transaction.parse`. -/
def read (testnet : Bool) : Reader Transaction := do
  let version ← Reader.uint32
  let inputs ← Reader.replicate (← Varint.read) Input.read
  let outputs ← Reader.replicate (← Varint.read) Output.read
  let locktime ← Reader.uint32
  return ⟨version, inputs, outputs, locktime, testnet⟩

/-- Reads a transaction that fills all of the bytes. Model of `Transaction.from_bytes`. -/
def decode (bytes : Bytes) (testnet : Bool) : Except Error Transaction := do
  let (tx, cursor) ← (read testnet).start bytes
  if cursor.rest = [] then .ok tx else .error (.trailingTransactionBytes cursor.rest.length)

/-- Reads a transaction as block explorers serve it. A zero byte behind the version marks the form
with witness data: the mark and the flag behind it are dropped, as is what stands between the
outputs and the last four bytes, which are the locktime. Model of
`Transaction.parse_from_network_bytes`. -/
def decodeServed (bytes : Bytes) (testnet : Bool) : Except Error Transaction := do
  if 6 < bytes.length ∧ bytes[4]? = some 0 then
    let (tx, _) ← (read testnet).start (bytes.take 4 ++ bytes.drop 6)
    let tail := bytes.drop (bytes.length - 4)
    return { tx with locktime := UInt32.ofNat (Bytes.toNatLE tail) }
  else
    let (tx, _) ← (read testnet).start bytes
    return tx

/-- The hash of a transaction, in the order in which it is displayed. Model of `Transaction.hash`.
-/
def hash (tx : Transaction) : Except Error (FixedBytes 32) := do
  return (Hash.hash256 (← tx.encode)).reverse

/-- The id of a transaction: its hash in hexadecimal digits. Model of `Transaction.id`. -/
def id (tx : Transaction) : Except Error String := do
  return Hex.encode (← tx.hash).val

/-- The written form of a transaction, with a line for each input and output. Model of the display
of `Transaction`. -/
def render (tx : Transaction) : String :=
  let id := match tx.id with
    | .ok id => id
    | .error _ => "<unserializable>"
  "\n".intercalate (
    [s!"tx: {id}", s!"version: {tx.version.toNat}", "tx_ins:"] ++ tx.inputs.map Input.render
      ++ ["tx_outs:"] ++ tx.outputs.map Output.render ++ [s!"locktime: {tx.locktime.toNat}"])

end Transaction

end CoinSpend
