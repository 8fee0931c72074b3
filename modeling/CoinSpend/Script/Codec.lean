import CoinSpend.Script.Instruction
import CoinSpend.Wire.Reader

/-!
# Scripts as bytes

A push of 1 to 75 bytes is headed by its length; longer pushes and the empty one have a header byte
and a length of one or two bytes. Every other byte is an opcode. In a transaction a script has its
length in front.

* `encodeInstruction_eq_ok_iff`: which instructions can be written.
-/

namespace CoinSpend.Script

/-- The longest push that is written. Model of `MAX_PUSH_SIZE`. -/
def pushLimit : Nat := 520

/-- The longest push whose length is its header. Model of `MAX_DIRECT_PUSH`. -/
def directLimit : Nat := 75

/-- Whether an opcode byte would be read back as the header of a push. -/
def isPushHeader (code : UInt8) : Bool := 0x01 ≤ code && code ≤ 0x4d

/-- The header of a push. -/
def pushHeader (length : Nat) : Bytes :=
  if 1 ≤ length ∧ length ≤ directLimit then [UInt8.ofNat length]
  else if length < 0x100 then Opcode.pushData1 :: Bytes.ofNatLE 1 length
  else Opcode.pushData2 :: Bytes.ofNatLE 2 length

/-- Writes an instruction. Model of one pass of the loop of `Script.raw_serialize`. -/
def encodeInstruction : Instruction → Except Error Bytes
  | .op code => if isPushHeader code then .error (.pushHeaderOpcode code) else .ok [code]
  | .push data =>
    if data.length ≤ pushLimit then .ok (pushHeader data.length ++ data)
    else .error (.pushTooLong data.length)

/-- Writes a script without its length. Model of `Script.raw_serialize`. -/
def encode (script : Script) : Except Error Bytes := do
  return (← script.mapM encodeInstruction).flatten

/-- Writes a script with its length in front. Model of `Script.serialize`. -/
def encodeSized (script : Script) : Except Error Bytes := do
  let bytes ← script.encode
  return Varint.encode bytes.length ++ bytes

/-- Reads the instructions of a script. `place` is the offset of the first unread byte in the whole
script. Model of the loop of `Script.parse_raw`. -/
def decodeFrom (place : Nat) (bytes : Bytes) : Except Error Script :=
  match bytes with
  | [] => .ok []
  | code :: rest =>
    if isPushHeader code then
      let lengthBytes :=
        if code = Opcode.pushData1 then 1 else if code = Opcode.pushData2 then 2 else 0
      if rest.length < lengthBytes then
        .error (.endOfData lengthBytes (place + 1) rest.length)
      else
        let length :=
          if lengthBytes = 0 then code.toNat else Bytes.toNatLE (rest.take lengthBytes)
        let body := rest.drop lengthBytes
        if body.length < length then .error (.pushPastEnd length)
        else
          (decodeFrom (place + 1 + lengthBytes + length) (body.drop length)).map
            (.push (body.take length) :: ·)
    else (decodeFrom (place + 1) rest).map (.op code :: ·)
termination_by bytes.length
decreasing_by
  · simp only [List.length_drop, List.length_cons]
    omega
  · simp

/-- Reads a script that fills all of the bytes. Model of `Script.parse_raw`. -/
def decode (bytes : Bytes) : Except Error Script := decodeFrom 0 bytes

/-- Reads a script with its length in front. Model of `Script.parse`. -/
def read : Reader Script := do
  let body ← Reader.bytes (← Varint.read)
  decode body

theorem encodeInstruction_eq_ok_iff {instruction : Instruction} :
    (∃ bytes, encodeInstruction instruction = .ok bytes) ↔
      match instruction with
      | .op code => isPushHeader code = false
      | .push data => data.length ≤ pushLimit := by
  cases instruction with
  | op code => cases h : isPushHeader code <;> simp [encodeInstruction, h]
  | push data => by_cases h : data.length ≤ pushLimit <;> simp [encodeInstruction, h]

end CoinSpend.Script
