import CoinSpend.Proofs.Transaction.Forms
import CoinSpend.Proofs.Wire.Place
import Mathlib

/-!
# Reading a transaction in place

The bytes of a transaction and of its parts say themselves where they end. So what stands behind
them is not looked at, and a reader that has taken a part stands at the first byte of the next one.

Results:
* `Script.follows_read`, `Input.follows_read`, `Output.follows_read`, `Transaction.follows_read`:
  where the readers stand in the data, also behind a refusal.
* `Transaction.readsInPlace_parts`: counts, scripts, inputs, outputs and transactions.
-/

namespace CoinSpend

/-! ## Scripts -/

/-- Takes a script with its length in front. Its body is taken before it is looked at. Model of
`Script.parse`. -/
def Script.readInPlace : Scanner Script := do
  let body ← Scanner.bytes (← Varint.readInPlace)
  decode body

theorem Script.follows_read : Follows readInPlace read :=
  Follows.varint.bind fun length => (Follows.bytes length).bind fun body => .lift (decode body)

/-! ## Inputs and outputs -/

/-- Takes an input. Model of `TxIn.parse`. -/
def Input.readInPlace : Scanner Input := do
  let prevId ← Scanner.take 32
  let prevIndex ← Scanner.uint32
  let unlocking ← Script.readInPlace
  let sequence ← Scanner.uint32
  return ⟨prevId.reverse, prevIndex, unlocking, sequence⟩

theorem Input.follows_read : Follows readInPlace read :=
  (Follows.take 32).bind fun _ => Follows.uint32.bind fun _ =>
    Script.follows_read.bind fun _ => Follows.uint32.bind fun _ => .pure _

/-- Takes an output. Model of `TxOut.parse`. -/
def Output.readInPlace : Scanner Output := do
  let amount ← Scanner.uint64
  return ⟨amount, ← Script.readInPlace⟩

theorem Output.follows_read : Follows readInPlace read :=
  Follows.uint64.bind fun _ => Script.follows_read.bind fun _ => .pure _

/-! ## Transactions -/

namespace Transaction

/-- Takes a transaction of a network. Model of `Transaction.parse`. -/
def readInPlace (testnet : Bool) : Scanner Transaction := do
  let version ← Scanner.uint32
  let inputs ← Scanner.replicate (← Varint.readInPlace) Input.readInPlace
  let outputs ← Scanner.replicate (← Varint.readInPlace) Output.readInPlace
  let locktime ← Scanner.uint32
  return ⟨version, inputs, outputs, locktime, testnet⟩

theorem follows_read (testnet : Bool) : Follows (readInPlace testnet) (read testnet) :=
  Follows.uint32.bind fun _ =>
    Follows.varint.bind fun inputs => (Input.follows_read.replicate inputs).bind fun _ =>
      Follows.varint.bind fun outputs => (Output.follows_read.replicate outputs).bind fun _ =>
        Follows.uint32.bind fun _ => .pure _

/-- Each part of a transaction is read in place: the reader moves forward within the data, takes the
bytes of the part, and looks at no others. -/
theorem readsInPlace_parts :
    ReadsInPlace Varint.readInPlace Varint.read ∧
      ReadsInPlace Script.readInPlace Script.read ∧
      ReadsInPlace Input.readInPlace Input.read ∧
      ReadsInPlace Output.readInPlace Output.read ∧
      ∀ testnet, ReadsInPlace (readInPlace testnet) (read testnet) :=
  ⟨⟨.varint, .of_faithful _⟩, ⟨Script.follows_read, .of_faithful _⟩,
    ⟨Input.follows_read, .of_faithful _⟩, ⟨Output.follows_read, .of_faithful _⟩,
    fun testnet => ⟨follows_read testnet, .of_faithful _⟩⟩

end Transaction

end CoinSpend
