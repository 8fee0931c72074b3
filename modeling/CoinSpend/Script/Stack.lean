import CoinSpend.Bytes
import CoinSpend.Script.Operation

/-!
# Numbers and stacks

A number on a stack is written with its magnitude least significant byte first and its sign in the
top bit of the last byte; zero has no bytes. Reading takes longer forms as well, up to a limit. A
running script has a main and an alternative stack, each as a list with the top first, so that a
depth is a place in the list. Together they hold at most 1000 elements, and an element has at most
520 bytes.

* `ScriptNumber.decode_eq_error_iff`: exactly the elements above the limit are refused.
* `ScriptNumber.isTrue_iff`: an element is true exactly when the number it writes is not zero.
* `Stack.push_eq_ok_iff`: what a push does and when it is possible.
-/

namespace CoinSpend

/-! ## Numbers as stack elements -/

namespace ScriptNumber

/-- The longest operand of an arithmetic operation. Model of `MAX_NUM_SIZE`. -/
def operandLimit : Nat := 4

/-- The longest operand of a locktime operation, which needs all of 32 bits. Model of
`MAX_LOCKTIME_NUM_SIZE`. -/
def locktimeLimit : Nat := 5

/-- The longest element that is read as a number at all. -/
def widthLimit : Nat := 8

/-- Puts a sign into the top bit of the last byte, or into a further byte if that bit is taken. -/
def withSign (negative : Bool) : Bytes → Bytes
  | [] => []
  | [b] =>
    if b ≥ 0x80 then [b, if negative then 0x80 else 0x00]
    else [if negative then b ||| 0x80 else b]
  | b :: bs => b :: withSign negative bs

/-- The shortest element that writes a number. Model of `encode_num`. -/
def encode (value : Int) : Bytes := withSign (value < 0) (Bytes.digitsLE value.natAbs)

/-- The sign and the magnitude that an element writes. -/
def signMagnitude : Bytes → Bool × Nat
  | [] => (false, 0)
  | [b] => (b ≥ 0x80, b.toNat % 128)
  | b :: bs => ((signMagnitude bs).1, b.toNat + 256 * (signMagnitude bs).2)

/-- The number that an element writes. -/
def value (element : Bytes) : Int :=
  if (signMagnitude element).1 then -(signMagnitude element).2 else (signMagnitude element).2

/-- Reads a number from an element of at most `limit` bytes. Model of `decode_num`. -/
def decode (limit : Nat) (element : Bytes) : Except ScriptError Int :=
  if element.length ≤ min limit widthLimit then .ok (value element) else .error .numberOverflow

/-- Whether an element is true: some byte is not zero, a last byte `0x80` aside. Model of `is_true`.
-/
def isTrue : Bytes → Bool
  | [] => false
  | [b] => b != 0x00 && b != 0x80
  | b :: bs => b != 0x00 || isTrue bs

/-- The element that writes a truth value. Model of `encode_bool`. -/
def ofBool (b : Bool) : Bytes := encode (if b then 1 else 0)

theorem decode_eq_error_iff {limit : Nat} {element : Bytes} {e : ScriptError} :
    decode limit element = .error e ↔
      min limit widthLimit < element.length ∧ e = .numberOverflow := by
  unfold decode
  split
  · next h => simp; omega
  · next h => simp [show min limit widthLimit < element.length by omega, eq_comm]

theorem isTrue_iff (element : Bytes) : isTrue element = true ↔ value element ≠ 0 := by
  have hmagnitude : isTrue element = true ↔ (signMagnitude element).2 ≠ 0 := by
    induction element with
    | nil => simp [isTrue, signMagnitude]
    | cons b bs ih =>
      cases bs with
      | nil =>
        have h : ∀ n : Fin 256, (UInt8.ofNat n != 0x00 && UInt8.ofNat n != 0x80) = true ↔
            (UInt8.ofNat n).toNat % 128 ≠ 0 := by decide +kernel
        have hb := h ⟨b.toNat, b.toNat_lt⟩
        simpa [isTrue, signMagnitude] using hb
      | cons c cs =>
        have hzero : b = 0 ↔ b.toNat = 0 := by
          rw [← UInt8.toNat_inj]
          rfl
        simp only [isTrue, signMagnitude, Bool.or_eq_true, bne_iff_ne, ih, ne_eq, hzero]
        omega
  rw [hmagnitude]
  unfold value
  split <;> omega

end ScriptNumber

/-! ## The stacks of a running script -/

/-- The main and the alternative stack, top first. Model of `Stack`. -/
structure Stack where
  main : List Bytes
  alt : List Bytes
deriving DecidableEq, Repr

namespace Stack

/-- The longest element. Model of `MAX_SCRIPT_ELEMENT_SIZE`. -/
def elementLimit : Nat := 520

/-- The most elements on both stacks together. Model of `MAX_STACK_SIZE`. -/
def sizeLimit : Nat := 1000

/-- Two empty stacks. Model of `Stack.new`. -/
def empty : Stack := ⟨[], []⟩

/-- The number of elements on both stacks. -/
def size (s : Stack) : Nat := s.main.length + s.alt.length

/-- The stacks, if they are not too high. Model of `Stack.check_size`. -/
def checkSize (s : Stack) : Except ScriptError Stack :=
  if s.size ≤ sizeLimit then .ok s else .error .stackSize

/-- Puts an element on the main stack. Model of `Stack.push`. -/
def push (s : Stack) (element : Bytes) : Except ScriptError Stack :=
  if element.length ≤ elementLimit then checkSize { s with main := element :: s.main }
  else .error .pushSize

/-- Puts an element on the alternative stack. Model of `Stack.push_alt`. -/
def pushAlt (s : Stack) (element : Bytes) : Except ScriptError Stack :=
  checkSize { s with alt := element :: s.alt }

/-- Takes the top of the main stack. Model of `Stack.pop`. -/
def pop (s : Stack) : Except ScriptError (Bytes × Stack) :=
  match s.main with
  | [] => .error .tooFewItems
  | top :: rest => .ok (top, { s with main := rest })

/-- Takes the top of the alternative stack. Model of `Stack.pop_alt`. -/
def popAlt (s : Stack) : Except ScriptError (Bytes × Stack) :=
  match s.alt with
  | [] => .error .emptyAltStack
  | top :: rest => .ok (top, { s with alt := rest })

/-- Takes `count` elements off the main stack, the lowest of them first in the list. Model of the
loops of `op_checkmultisig` that pop. -/
def popMany (s : Stack) (count : Nat) : Except ScriptError (List Bytes × Stack) :=
  if s.main.length < count then .error .tooFewItems
  else .ok ((s.main.take count).reverse, { s with main := s.main.drop count })

/-- Takes a number off the main stack. Model of `pop_num`. -/
def popNumber (s : Stack) : Except ScriptError (Int × Stack) := do
  let (top, s) ← s.pop
  return (← ScriptNumber.decode ScriptNumber.operandLimit top, s)

/-- Succeeds if the main stack holds at least `count` elements. Model of `Stack.require`. -/
def require (s : Stack) (count : Nat) : Except ScriptError Unit :=
  if s.main.length < count then .error .tooFewItems else .ok ()

/-- The element at a depth of the main stack. Model of `Stack.top`. -/
def top (s : Stack) (depth : Nat) : Except ScriptError Bytes :=
  match s.main[depth]? with
  | none => .error .tooFewItems
  | some element => .ok element

/-- Takes the element at a depth out of the main stack. Model of `Stack.remove`. -/
def remove (s : Stack) (depth : Nat) : Except ScriptError (Bytes × Stack) := do
  return (← s.top depth, { s with main := s.main.eraseIdx depth })

/-- Puts an element into the main stack, so that it ends up at the given depth. Model of
`Stack.insert`. -/
def insert (s : Stack) (depth : Nat) (element : Bytes) : Except ScriptError Stack :=
  if s.main.length < depth then .error .tooFewItems
  else checkSize { s with main := s.main.insertIdx depth element }

/-- Swaps the elements at two depths of the main stack. Model of `Stack.swap`. -/
def swap (s : Stack) (i j : Nat) : Except ScriptError Stack := do
  let first ← s.top i
  let second ← s.top j
  return { s with main := (s.main.set i second).set j first }

/-- Takes the top of the main stack, which must be true. Model of `verify_top`. -/
def verifyTop (s : Stack) (otherwise : ScriptError) : Except ScriptError Stack := do
  let (top, s) ← s.pop
  if ScriptNumber.isTrue top then .ok s else .error otherwise

theorem push_eq_ok_iff {s t : Stack} {element : Bytes} :
    s.push element = .ok t ↔
      element.length ≤ elementLimit ∧ s.size < sizeLimit ∧
        t = { s with main := element :: s.main } := by
  unfold push checkSize
  split
  · next h =>
    have hsize : size { s with main := element :: s.main } = s.size + 1 := by
      simp only [size, List.length_cons]
      omega
    rw [hsize]
    split
    · next hs => simp [h, show s.size < sizeLimit by omega, eq_comm]
    · next hs => simp [show ¬ s.size < sizeLimit by omega]
  · next h => simp [h]

end Stack

end CoinSpend
