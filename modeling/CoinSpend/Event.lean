import CoinSpend.Error
import CoinSpend.Script.Instruction

/-!
# Events

What the library has to tell about its work, apart from results. A computation that tells something
returns a `Logged` value; the order of events is the order in which they happen.
-/

namespace CoinSpend

/-- Why a script run failed: the cause, and the opcode that ran into it, if there was one. Model of
the error of `Script.run`. -/
structure Failure where
  error : ScriptError
  code : Option UInt8
deriving DecidableEq, Repr

/-- Things worth telling. -/
inductive Event where
  /-- An operation is about to be run. -/
  | executing (code : UInt8)
  /-- The operands of a signature check are no public key and signature. -/
  | unreadableOperands (opcodeName : String)
  /-- A script run failed. -/
  | scriptFailed (failure : Failure)
  /-- An input spends a script hash, but pushes no redeem script. -/
  | noRedeemScript (input : Nat)
  /-- The outputs of a transaction exceed what it spends. -/
  | negativeFee (fee : Int)
  /-- An input of a transaction is not allowed to spend its output. -/
  | inputRejected (input : Nat)
  /-- An input was signed by a key that does not own its output. -/
  | signedInVain (input : Nat)
  /-- An entry of a store file is no transaction. -/
  | entrySkipped (id : String) (error : Error)
  /-- An override of the settings is unusable. -/
  | overrideIgnored (error : Error)
deriving DecidableEq, Repr

/-- The wording of an event. -/
def Event.text : Event → String
  | executing code => s!"executing {Instruction.render (.op code)}"
  | unreadableOperands opcodeName => s!"{opcodeName} operands did not parse"
  | scriptFailed ⟨error, none⟩ => s!"script failed: {error.message}"
  | scriptFailed ⟨error, some code⟩ =>
    let name := (Opcode.name? code).getD "unknown opcode"
    s!"bad op: {name} ({error.message})"
  | noRedeemScript input => s!"Input {input} spends P2SH without a usable redeem script"
  | negativeFee fee => s!"Transaction spends more than its inputs provide (fee {fee})"
  | inputRejected input => s!"Input {input} failed verification"
  | signedInVain input => s!"Freshly signed input {input} does not verify"
  | entrySkipped id error => s!"Skipping cached transaction {id}: {error.message}"
  | overrideIgnored error => s!"Ignoring environment override: {error.message}"

/-- A value with the events on the way to it. -/
structure Logged (α : Type) where
  log : List Event
  value : α
deriving Repr

namespace Logged

/-- A value without events. -/
def silent {α : Type} (value : α) : Logged α := ⟨[], value⟩

/-- Puts events before those of a value. -/
def after {α : Type} (log : List Event) (x : Logged α) : Logged α := ⟨log ++ x.log, x.value⟩

/-- Changes the value and keeps the events. -/
def map {α β : Type} (f : α → β) (x : Logged α) : Logged β := ⟨x.log, f x.value⟩

end Logged

end CoinSpend
