import CoinSpend.Proofs.Script.Multisig
import CoinSpend.Proofs.Script.Number
import CoinSpend.Proofs.Script.Unlimited
import Mathlib

/-!
# Arithmetic on stack elements

A numeric opcode takes one, two or three operands off the stack, the one that was pushed last first,
and leaves the element that writes the result. Operands have at most four bytes, so their magnitudes
have at most 31 bits. One sum, difference or change of sign leaves them far inside of 64 bits, and
the result has at most five bytes. A result of five bytes is no operand any more.

Results:
* `Opcode.numeric?`: what the numeric opcodes compute, over numbers of any type.
* `Stack.popNumbers_append`, `Stack.popNumbers_of_long`, `Stack.popNumbers_of_few`: the operands.
* `Opcode.exists_exact`: on words of 64 bits, nothing overflows.
* `Opcode.execute_numeric`: what a numeric opcode does.
-/

namespace CoinSpend

/-! ## What is computed -/

/-- A function of one, two or three numbers. -/
inductive Formula (α : Type) where
  | one (f : α → α)
  | two (f : α → α → α)
  | three (f : α → α → α → α)

namespace Formula

/-- The number of operands. -/
def arity {α : Type} : Formula α → ℕ
  | one _ => 1
  | two _ => 2
  | three _ => 3

theorem arity_pos {α : Type} (formula : Formula α) : 0 < formula.arity := by
  cases formula <;> exact Nat.succ_pos _

/-- The value for given operands. It is zero if there are not as many as the formula needs. -/
def eval {α : Type} [OfNat α 0] : Formula α → List α → α
  | one f, [a] => f a
  | two f, [a, b] => f a b
  | three f, [a, b, c] => f a b c
  | _, _ => 0

end Formula

namespace Opcode

/-- Requires two numbers to be equal. -/
def numEqualVerify : UInt8 := 0x9d

/-- What a numeric opcode computes from its operands, which are given in the order in which they are
pushed. Truth values are one and zero. -/
def numeric? (α : Type) [OfNat α 0] [OfNat α 1] [Add α] [Sub α] [Neg α] [Min α] [Max α] [LE α]
    [LT α] [DecidableEq α] [DecidableLE α] [DecidableLT α] (code : UInt8) : Option (Formula α) :=
  match code with
  | 0x8b => some (.one fun a => a + 1) -- OP_1ADD
  | 0x8c => some (.one fun a => a - 1) -- OP_1SUB
  | 0x8f => some (.one fun a => -a) -- OP_NEGATE
  | 0x90 => some (.one fun a => max a (-a)) -- OP_ABS
  | 0x91 => some (.one fun a => if a = 0 then 1 else 0) -- OP_NOT
  | 0x92 => some (.one fun a => if a ≠ 0 then 1 else 0) -- OP_0NOTEQUAL
  | 0x93 => some (.two fun a b => a + b) -- OP_ADD
  | 0x94 => some (.two fun a b => a - b) -- OP_SUB
  | 0x9a => some (.two fun a b => if a ≠ 0 ∧ b ≠ 0 then 1 else 0) -- OP_BOOLAND
  | 0x9b => some (.two fun a b => if a ≠ 0 ∨ b ≠ 0 then 1 else 0) -- OP_BOOLOR
  | 0x9c => some (.two fun a b => if a = b then 1 else 0) -- OP_NUMEQUAL
  | 0x9d => some (.two fun a b => if a = b then 1 else 0) -- OP_NUMEQUALVERIFY
  | 0x9e => some (.two fun a b => if a ≠ b then 1 else 0) -- OP_NUMNOTEQUAL
  | 0x9f => some (.two fun a b => if a < b then 1 else 0) -- OP_LESSTHAN
  | 0xa0 => some (.two fun a b => if b < a then 1 else 0) -- OP_GREATERTHAN
  | 0xa1 => some (.two fun a b => if a ≤ b then 1 else 0) -- OP_LESSTHANOREQUAL
  | 0xa2 => some (.two fun a b => if b ≤ a then 1 else 0) -- OP_GREATERTHANOREQUAL
  | 0xa3 => some (.two fun a b => min a b) -- OP_MIN
  | 0xa4 => some (.two fun a b => max a b) -- OP_MAX
  | 0xa5 => some (.three fun x lower upper => if lower ≤ x ∧ x < upper then 1 else 0) -- OP_WITHIN
  | _ => none

end Opcode

/-! ## Nothing overflows -/

namespace Formula

/-- On words of 64 bits whose magnitudes have at most 31 bits, one formula gives the words for the
values of another one, and these have at most 32 bits. -/
inductive Exact : Formula Int64 → Formula ℤ → Prop
  | one {f : Int64 → Int64} {g : ℤ → ℤ}
    (h : ∀ a, a.toInt.natAbs < 2 ^ 31 →
      (f a).toInt = g a.toInt ∧ (g a.toInt).natAbs < 2 ^ 32) : Exact (.one f) (.one g)
  | two {f : Int64 → Int64 → Int64} {g : ℤ → ℤ → ℤ}
    (h : ∀ a b, a.toInt.natAbs < 2 ^ 31 → b.toInt.natAbs < 2 ^ 31 →
      (f a b).toInt = g a.toInt b.toInt ∧ (g a.toInt b.toInt).natAbs < 2 ^ 32) :
    Exact (.two f) (.two g)
  | three {f : Int64 → Int64 → Int64 → Int64} {g : ℤ → ℤ → ℤ → ℤ}
    (h : ∀ a b c, (f a b c).toInt = g a.toInt b.toInt c.toInt ∧
      (g a.toInt b.toInt c.toInt).natAbs < 2 ^ 32) : Exact (.three f) (.three g)

/-- An exact formula, on a list of words. -/
theorem Exact.eval {word : Formula Int64} {formula : Formula ℤ} (h : word.Exact formula)
    {words : List Int64} (hlength : words.length = formula.arity)
    (hsmall : ∀ m ∈ words, m.toInt.natAbs < 2 ^ 31) :
    (word.eval words).toInt = formula.eval (words.map Int64.toInt) ∧
      (formula.eval (words.map Int64.toInt)).natAbs < 2 ^ 32 := by
  cases h with
  | one h =>
    obtain ⟨a, rfl⟩ := List.length_eq_one_iff.mp hlength
    exact h a (hsmall a (by simp))
  | two h =>
    obtain ⟨a, b, rfl⟩ := List.length_eq_two.mp hlength
    exact h a b (hsmall a (by simp)) (hsmall b (by simp))
  | three h =>
    obtain ⟨a, b, c, rfl⟩ := List.length_eq_three.mp hlength
    exact h a b c

end Formula

/-- A truth value is the same number as a word. -/
theorem toInt_truth {p q : Prop} [Decidable p] [Decidable q] (h : p ↔ q) :
    (if p then (1 : Int64) else 0).toInt = (if q then 1 else 0) ∧
      (if q then (1 : ℤ) else 0).natAbs < 2 ^ 32 := by
  by_cases hq : q
  · rw [if_pos (h.mpr hq), if_pos hq]
    decide
  · rw [if_neg (h.not.mpr hq), if_neg hq]
    decide

/-- A word of 64 bits that computes a small number is this number. -/
theorem toInt_of_bmod {m : Int64} {n : ℤ} (h : m.toInt = n.bmod (2 ^ 64))
    (hn : n.natAbs < 2 ^ 32) : m.toInt = n ∧ n.natAbs < 2 ^ 32 := by
  rw [h, Int.bmod_eq_of_le (by omega) (by omega)]
  exact ⟨rfl, hn⟩

namespace Opcode

variable {code : UInt8} {formula : Formula ℤ}

theorem eq_zero_iff_toInt {a : Int64} : a = 0 ↔ a.toInt = 0 := Int64.toInt_inj.symm

/-- Numeric opcodes are exact on words of 64 bits. -/
theorem exists_exact (h : numeric? ℤ code = some formula) :
    ∃ word, numeric? Int64 code = some word ∧ word.Exact formula := by
  unfold numeric? at h ⊢
  split at h <;> cases h <;> refine ⟨_, rfl, ?_⟩
  -- arithmetic on one number
  · exact .one fun a ha => toInt_of_bmod (Int64.toInt_add a 1) (by simp; omega)
  · exact .one fun a ha => toInt_of_bmod (Int64.toInt_sub a 1) (by simp; omega)
  · exact .one fun a ha => toInt_of_bmod (Int64.toInt_neg a) (by simp; omega)
  · refine .one fun a ha => ?_
    obtain ⟨hneg, -⟩ := toInt_of_bmod (Int64.toInt_neg a) (by omega)
    change (if a ≤ -a then -a else a).toInt = max a.toInt (-a.toInt) ∧ _
    simp only [Int64.le_iff_toInt_le, hneg]
    split_ifs <;> omega
  · exact .one fun a _ => toInt_truth eq_zero_iff_toInt
  · exact .one fun a _ => toInt_truth eq_zero_iff_toInt.not
  -- arithmetic on two numbers
  · exact .two fun a b ha hb => toInt_of_bmod (Int64.toInt_add a b) (by simp; omega)
  · exact .two fun a b ha hb => toInt_of_bmod (Int64.toInt_sub a b) (by simp; omega)
  · exact .two fun a b _ _ => toInt_truth (eq_zero_iff_toInt.not.and eq_zero_iff_toInt.not)
  · exact .two fun a b _ _ => toInt_truth (eq_zero_iff_toInt.not.or eq_zero_iff_toInt.not)
  · exact .two fun a b _ _ => toInt_truth Int64.toInt_inj.symm
  · exact .two fun a b _ _ => toInt_truth Int64.toInt_inj.symm
  · exact .two fun a b _ _ => toInt_truth Int64.toInt_inj.symm.not
  · exact .two fun a b _ _ => toInt_truth Int64.lt_iff_toInt_lt
  · exact .two fun a b _ _ => toInt_truth Int64.lt_iff_toInt_lt
  · exact .two fun a b _ _ => toInt_truth Int64.le_iff_toInt_le
  · exact .two fun a b _ _ => toInt_truth Int64.le_iff_toInt_le
  · refine .two fun a b ha hb => ?_
    change (if a ≤ b then a else b).toInt = min a.toInt b.toInt ∧ _
    simp only [Int64.le_iff_toInt_le]
    split_ifs <;> omega
  · refine .two fun a b ha hb => ?_
    change (if a ≤ b then b else a).toInt = max a.toInt b.toInt ∧ _
    simp only [Int64.le_iff_toInt_le]
    split_ifs <;> omega
  -- a number between two others
  · exact .three fun x lower upper =>
      toInt_truth (Int64.le_iff_toInt_le.and Int64.lt_iff_toInt_lt)

end Opcode

/-! ## Operands -/

namespace Stack

variable {s : Stack} {count : ℕ}

/-- Takes numbers off the main stack, the lowest of them first in the list. -/
def popNumbers : ℕ → Stack → Except ScriptError (List ℤ × Stack)
  | 0, s => .ok ([], s)
  | count + 1, s => do
    let top ← s.popNumber
    let below ← popNumbers count top.2
    return (below.1 ++ [top.1], below.2)

theorem popNumber_of_short {top : Bytes} {rest alt : List Bytes} (h : top.length ≤ 4) :
    popNumber ⟨top :: rest, alt⟩ = .ok (ScriptNumber.value top, ⟨rest, alt⟩) :=
  popNumber_cons (ScriptNumber.decode_eq_ok_iff.mpr ⟨h, rfl⟩)

theorem popNumber_of_long {top : Bytes} {rest alt : List Bytes} (h : 4 < top.length) :
    popNumber ⟨top :: rest, alt⟩ = .error .numberOverflow := by
  have hdecode : ScriptNumber.decode ScriptNumber.operandLimit top = .error .numberOverflow :=
    ScriptNumber.decode_eq_error_iff.mpr ⟨h, rfl⟩
  change (ScriptNumber.decode ScriptNumber.operandLimit top >>= fun number => _) = _
  rw [hdecode, error_bind]

/-- Short elements on top are numbers. -/
theorem popNumbers_append {elements : List Bytes} (h : ∀ element ∈ elements, element.length ≤ 4)
    (rest alt : List Bytes) : popNumbers elements.length ⟨elements ++ rest, alt⟩ =
      .ok ((elements.map ScriptNumber.value).reverse, ⟨rest, alt⟩) := by
  induction elements with
  | nil => rfl
  | cons top elements ih =>
    obtain ⟨htop, helements⟩ := List.forall_mem_cons.mp h
    rw [List.cons_append, List.length_cons, popNumbers, popNumber_of_short htop, ok_bind,
      ih helements, ok_bind, List.map_cons, List.reverse_cons]
    rfl

/-- A long element among those to be taken is met before the stack may end. -/
theorem popNumbers_of_long (h : ∃ element ∈ s.main.take count, 4 < element.length) :
    s.popNumbers count = .error .numberOverflow := by
  obtain ⟨main, alt⟩ := s
  induction count generalizing main with
  | zero => simp at h
  | succ count ih =>
    cases main with
    | nil => simp at h
    | cons top rest =>
      rw [popNumbers]
      rcases Nat.lt_or_ge 4 top.length with htop | htop
      · rw [popNumber_of_long htop, error_bind]
      · have hrest : ∃ element ∈ rest.take count, 4 < element.length := by
          obtain ⟨element, hmem, hlong⟩ := h
          rw [List.take_succ_cons, List.mem_cons] at hmem
          rcases hmem with rfl | hmem
          · omega
          · exact ⟨element, hmem, hlong⟩
        rw [popNumber_of_short htop, ok_bind, ih rest hrest, error_bind]

theorem popNumbers_of_few (h : ∀ element ∈ s.main.take count, element.length ≤ 4)
    (hfew : s.main.length < count) : s.popNumbers count = .error .tooFewItems := by
  obtain ⟨main, alt⟩ := s
  induction count generalizing main with
  | zero => exact absurd hfew (Nat.not_lt_zero _)
  | succ count ih =>
    cases main with
    | nil => rfl
    | cons top rest =>
      rw [List.take_succ_cons, List.forall_mem_cons] at h
      rw [popNumbers, popNumber_of_short h.1, ok_bind,
        ih rest h.2 (Nat.lt_of_succ_lt_succ hfew), error_bind]

end Stack

/-! ## Operations -/

namespace Operation

variable {ctx : Context} {s : Stack}

/-- What an operation computes from its operands, lowest first. -/
def formula? : Operation → Option (Formula ℤ)
  | unary kind => some (.one kind.apply)
  | binary kind => some (.two kind.apply)
  | within => some (.three fun x lower upper => if lower ≤ x ∧ x < upper then 1 else 0)
  | _ => none

/-- An operation with a formula takes all of its operands off the stack before it computes. -/
theorem apply_eq_popNumbers {operation : Operation} {formula : Formula ℤ}
    (h : operation.formula? = some formula) : operation.apply ctx s =
      s.popNumbers formula.arity >>= fun result =>
        result.2.push (ScriptNumber.encode (formula.eval result.1)) := by
  unfold formula? at h
  split at h <;> cases h <;>
    simp only [apply, Formula.arity, Stack.popNumbers, bind_assoc, ok_bind, pure_bind]
  · rfl
  · rfl
  · refine bind_congr fun upper => bind_congr fun lower => bind_congr fun x => ?_
    simp [ScriptNumber.ofBool, Formula.eval]

end Operation

namespace Opcode

variable {ctx : Context} {code : UInt8} {formula : Formula ℤ} {s : Stack}

theorem absolute_eq : (fun a : ℤ => max a (-a)) = UnaryOperation.absolute.apply := by
  funext a
  change max a (-a) = (a.natAbs : ℤ)
  omega

/-- A numeric opcode stands for an operation that computes its formula. -/
theorem exists_operation (h : numeric? ℤ code = some formula) :
    ∃ operation : Operation, operation.formula? = some formula ∧ operation? code =
      some (if code = numEqualVerify then .verified operation .numEqualVerify else operation) := by
  unfold numeric? at h
  split at h <;> cases h
  case h_4 => exact ⟨.unary .absolute, by rw [absolute_eq]; rfl, rfl⟩
  case h_12 => exact ⟨.binary .equal, rfl, rfl⟩
  all_goals exact ⟨_, rfl, rfl⟩

/-- A numeric opcode takes all of its operands before it computes. -/
theorem execute_eq_popNumbers (h : numeric? ℤ code = some formula) : execute ctx code s =
    s.popNumbers formula.arity >>= fun result =>
      result.2.push (ScriptNumber.encode (formula.eval result.1)) >>= fun t =>
        if code = numEqualVerify then t.verifyTop .numEqualVerify else .ok t := by
  obtain ⟨operation, hformula, hoperation⟩ := exists_operation h
  rw [execute_of_operation? hoperation]
  split_ifs with hverify
  · change operation.apply ctx s >>= _ = _
    rw [Operation.apply_eq_popNumbers hformula, bind_assoc]
  · rw [Operation.apply_eq_popNumbers hformula]
    exact bind_congr fun result => (bind_pure _).symm

/-- Elements of at most four bytes are numbers, which are words with magnitudes of 31 bits. -/
theorem exists_words {operands : List Bytes} (h : ∀ operand ∈ operands, operand.length ≤ 4) :
    ∃ words : List Int64, words.map Int64.toInt = operands.map ScriptNumber.value ∧
      ∀ m ∈ words, m.toInt.natAbs < 2 ^ 31 := by
  induction operands with
  | nil => exact ⟨[], rfl, by simp⟩
  | cons operand operands ih =>
    obtain ⟨hoperand, hoperands⟩ := List.forall_mem_cons.mp h
    obtain ⟨m, hm⟩ := ScriptNumber.exists_int64 (hoperand.trans (by decide))
    obtain ⟨words, hwords, hsmall⟩ := ih hoperands
    have hlt := (ScriptNumber.two_mul_natAbs_value_lt operand).trans_le
      (Nat.pow_le_pow_right (by decide) hoperand)
    refine ⟨m :: words, ?_, List.forall_mem_cons.mpr ⟨?_, hsmall⟩⟩
    · rw [List.map_cons, List.map_cons, hm, hwords]
    · rw [hm]
      omega

theorem forall₂_decode {operands : List Bytes} (h : ∀ operand ∈ operands, operand.length ≤ 4) :
    List.Forall₂ (fun operand number => ScriptNumber.decode 4 operand = .ok number) operands
      (operands.map ScriptNumber.value) := by
  rw [List.forall₂_map_right_iff, List.forall₂_same]
  exact fun operand hmem => ScriptNumber.decode_eq_ok_iff.mpr ⟨h operand hmem, rfl⟩

/-- The result takes the place of the operands, or is required. -/
theorem execute_of_short (ctx : Context) (hcode : numeric? ℤ code = some formula)
    {operands rest alt : List Bytes} (h : Stack.WithinLimits ⟨operands.reverse ++ rest, alt⟩)
    (hlength : operands.length = formula.arity) (hshort : ∀ operand ∈ operands, operand.length ≤ 4)
    {result : Bytes} (hfive : result.length ≤ 5)
    (hresult : result = ScriptNumber.encode (formula.eval (operands.map ScriptNumber.value))) :
    execute ctx code ⟨operands.reverse ++ rest, alt⟩ =
      if code = numEqualVerify then Stack.verifyTop ⟨result :: rest, alt⟩ .numEqualVerify
      else .ok ⟨result :: rest, alt⟩ := by
  have hpop : Stack.popNumbers formula.arity ⟨operands.reverse ++ rest, alt⟩ =
      .ok (operands.map ScriptNumber.value, ⟨rest, alt⟩) := by
    have hreverse : ∀ element ∈ operands.reverse, element.length ≤ 4 := by
      simpa only [List.mem_reverse] using hshort
    have happend := Stack.popNumbers_append hreverse rest alt
    rwa [List.length_reverse, hlength, List.map_reverse, List.reverse_reverse] at happend
  have hpush : Stack.push ⟨rest, alt⟩ result = .ok ⟨result :: rest, alt⟩ := by
    refine Stack.push_eq_ok_iff.mpr ⟨hfive.trans (by decide), ?_, rfl⟩
    have hheight := h.height
    have hpos := formula.arity_pos
    simp only [Stack.size, List.length_append, List.length_reverse] at hheight ⊢
    omega
  rw [execute_eq_popNumbers hcode, hpop, ok_bind, ← hresult, hpush, ok_bind]

/-- A number that is one or zero, as a truth value that is required. -/
theorem verifyTop_truth {p : Prop} [Decidable p] {rest alt : List Bytes} {e : ScriptError} :
    Stack.verifyTop ⟨ScriptNumber.encode (if p then 1 else 0) :: rest, alt⟩ e =
      if p then .ok ⟨rest, alt⟩ else .error e := by
  refine if_congr ?_ rfl rfl
  rw [ScriptNumber.isTrue_iff, ScriptNumber.value_encode]
  split_ifs with h <;> simp [h]

theorem execute_of_long (hcode : numeric? ℤ code = some formula)
    (h : ∃ operand ∈ s.main.take formula.arity, 4 < operand.length) :
    execute ctx code s = .error .numberOverflow := by
  rw [execute_eq_popNumbers hcode, Stack.popNumbers_of_long h, error_bind]

/-- On stacks within the limits whose top holds its operands, each of at most four bytes, a numeric
opcode replaces exactly these by the shortest element that writes its value on the numbers that are
read from them. The same comes out on words of 64 bits, so nothing overflows, and the result has at
most five bytes. One opcode takes the result off again, and asks that its operands are equal. If an
operand has more than four bytes, the opcode fails for that reason, and this includes results of
five bytes; if all of them are short, but they are too few, it fails for that one. -/
theorem execute_numeric (ctx : Context) {code : UInt8} {formula : Formula ℤ}
    (hcode : numeric? ℤ code = some formula) {s : Stack} (h : s.WithinLimits) :
    (∀ operands rest, s.main = operands.reverse ++ rest → operands.length = formula.arity →
      (∀ operand ∈ operands, operand.length ≤ 4) → ∃ numbers result,
        List.Forall₂ (fun operand number => ScriptNumber.decode 4 operand = .ok number)
          operands numbers ∧
        ScriptNumber.value result = formula.eval numbers ∧ ScriptNumber.IsMinimal result ∧
        result.length ≤ 5 ∧
        (∃ words word, words.map Int64.toInt = numbers ∧ numeric? Int64 code = some word ∧
          (word.eval words).toInt = formula.eval numbers) ∧
        (code ≠ numEqualVerify → execute ctx code s = .ok ⟨result :: rest, s.alt⟩) ∧
        (code = numEqualVerify → ∃ a b, numbers = [a, b] ∧ execute ctx code s =
          if a = b then .ok ⟨rest, s.alt⟩ else .error .numEqualVerify) ∧
        (4 < result.length → ∀ next nextFormula t, numeric? ℤ next = some nextFormula →
          result ∈ t.main.take nextFormula.arity →
          execute ctx next t = .error .numberOverflow)) ∧
    ((∃ operand ∈ s.main.take formula.arity, 4 < operand.length) →
      execute ctx code s = .error .numberOverflow) ∧
    ((∀ operand ∈ s.main.take formula.arity, operand.length ≤ 4) →
      s.main.length < formula.arity → execute ctx code s = .error .tooFewItems) := by
  refine ⟨?_, fun hlong => execute_of_long hcode hlong, fun hshort hfew => ?_⟩
  · intro operands rest hmain hlength hshort
    obtain ⟨main, alt⟩ := s
    obtain rfl : main = operands.reverse ++ rest := hmain
    obtain ⟨words, hwords, hsmall⟩ := exists_words hshort
    obtain ⟨word, hword, hexact⟩ := exists_exact hcode
    have hcount : words.length = formula.arity := by
      rw [← hlength, ← List.length_map, hwords, List.length_map]
    obtain ⟨heval, hbound⟩ := hexact.eval hcount hsmall
    rw [hwords] at heval hbound
    have hfive :
        (ScriptNumber.encode (formula.eval (operands.map ScriptNumber.value))).length ≤ 5 :=
      ScriptNumber.length_encode_le_iff.mpr (by omega)
    have hexecute := execute_of_short ctx hcode h hlength hshort hfive rfl
    refine ⟨_, _, forall₂_decode hshort, ScriptNumber.value_encode _,
      ScriptNumber.isMinimal_encode _, hfive, ⟨words, word, hwords, hword, heval⟩, ?_, ?_, ?_⟩
    · intro hne
      rw [hexecute, if_neg hne]
    · rintro rfl
      cases hcode
      obtain ⟨a, b, rfl⟩ := List.length_eq_two.mp hlength
      refine ⟨_, _, rfl, ?_⟩
      rw [hexecute, if_pos rfl]
      exact verifyTop_truth
    · intro hlong next nextFormula t hnext hmem
      exact execute_of_long hnext ⟨_, hmem, hlong⟩
  · rw [execute_eq_popNumbers hcode, Stack.popNumbers_of_few hshort hfew, error_bind]

/-- The least number of four bytes less the greatest one, which is pushed last. The result has five
bytes, so nothing can be added to it. -/
theorem execute_numeric_extremes :
    numeric? ℤ 0x94 = some (.two fun a b => a - b) ∧
      Stack.WithinLimits ⟨[[0xff, 0xff, 0xff, 0x7f], [0xff, 0xff, 0xff, 0xff]], []⟩ ∧
      execute (.plain 0) 0x94 ⟨[[0xff, 0xff, 0xff, 0x7f], [0xff, 0xff, 0xff, 0xff]], []⟩ =
        .ok ⟨[[0xfe, 0xff, 0xff, 0xff, 0x80]], []⟩ ∧
      execute (.plain 0) 0x8b ⟨[[0xfe, 0xff, 0xff, 0xff, 0x80]], []⟩ =
        .error .numberOverflow := by
  have hsub : numeric? ℤ 0x94 = some (.two fun a b => a - b) := rfl
  have hincrement : numeric? ℤ 0x8b = some (.one fun a => a + 1) := rfl
  have hlimits :
      Stack.WithinLimits ⟨[[0xff, 0xff, 0xff, 0x7f], [0xff, 0xff, 0xff, 0xff]], []⟩ :=
    ⟨by decide, by decide, by simp⟩
  obtain ⟨hread, -⟩ := execute_numeric (.plain 0) hsub hlimits
  obtain ⟨numbers, result, hnumbers, hvalue, hminimal, -, -, hexecute, -, hagain⟩ :=
    hread [[0xff, 0xff, 0xff, 0xff], [0xff, 0xff, 0xff, 0x7f]] [] rfl rfl (by decide)
  have hnumbers' : numbers = [-2147483647, 2147483647] := by
    obtain ⟨a, _, ha, hrest, rfl⟩ := List.forall₂_cons_left_iff.mp hnumbers
    obtain ⟨b, _, hb, hnil, rfl⟩ := List.forall₂_cons_left_iff.mp hrest
    cases hnil
    cases ha
    cases hb
    rfl
  have hresult : result = [0xfe, 0xff, 0xff, 0xff, 0x80] := by
    have hfive : ScriptNumber.IsMinimal [0xfe, 0xff, 0xff, 0xff, 0x80] :=
      .inr (.inr ⟨[0xfe, 0xff, 0xff], 0xff, 0x80, rfl, by decide⟩)
    rw [← ScriptNumber.encode_value_iff.mpr hminimal, hvalue, hnumbers',
      ← ScriptNumber.encode_value_iff.mpr hfive]
    rfl
  subst hresult
  exact ⟨hsub, hlimits, hexecute (by decide),
    hagain (by decide) 0x8b _ _ hincrement List.mem_cons_self⟩

end Opcode

end CoinSpend
