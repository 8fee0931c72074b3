import CoinSpend.Proofs.Script.Multisig
import CoinSpend.Proofs.Script.Unlimited
import CoinSpend.Proofs.Transaction.PayToKeyHash
import Mathlib

/-!
# Checks of several signatures on any stacks

A check takes a count and as many public keys off the stack, a count and as many signatures, and one
further element. It fails exactly if these are not there or a count is not in its range; else it
leaves one truth value for all of them. The value tells whether the signatures can be assigned to
keys, in the same order, so that each verifies under its key.

Results:
* `exists_owners_iff`: owners among the keys, as an assignment of places.
* `Stack.popCounted_eq_ok_iff`, `Stack.popCounted_eq_error_iff`: elements behind their count.
* `Operation.multisigOperands_eq_ok_iff`, `Operation.multisigOperands_eq_error_iff`: the operands.
* `Opcode.execute_checkMultisig`: what the check does.
-/

namespace CoinSpend

/-- Members of a list that stand in the same order as those of another one, as an assignment of
places. -/
theorem exists_owners_iff {α β : Type} {R : α → β → Prop} {as : List α} {bs : List β} :
    (∃ owners, owners.Sublist bs ∧ List.Forall₂ R as owners) ↔
      ∃ place : Fin as.length → Fin bs.length, StrictMono place ∧
        ∀ i, R (as.get i) (bs.get (place i)) := by
  constructor
  · rintro ⟨owners, hsub, hall⟩
    obtain ⟨place, hplace⟩ := List.sublist_iff_exists_fin_orderEmbedding_get_eq.mp hsub
    have hlength := hall.length_eq
    refine ⟨fun i => place (i.cast hlength),
      place.strictMono.comp (Fin.cast_strictMono hlength), fun i => ?_⟩
    rw [← hplace]
    exact hall.get i.isLt (hlength ▸ i.isLt)
  · rintro ⟨place, hmono, hall⟩
    have hlength : (List.ofFn fun i => bs.get (place i)).length = as.length := List.length_ofFn
    refine ⟨List.ofFn fun i => bs.get (place i), ?_, ?_⟩
    · refine List.sublist_iff_exists_fin_orderEmbedding_get_eq.mpr
        ⟨OrderEmbedding.ofStrictMono (fun i => place (i.cast hlength))
          (hmono.comp (Fin.cast_strictMono hlength)), fun i => ?_⟩
      rw [List.get_ofFn]
      rfl
    · refine List.forall₂_iff_get.mpr ⟨hlength.symm, fun i hi _ => ?_⟩
      rw [List.get_ofFn]
      exact hall ⟨i, hi⟩

/-! ## Elements behind their count -/

namespace Stack

variable {s t : Stack} {limit : ℤ} {outOfRange e : ScriptError} {elements : List Bytes}

theorem popNumber_eq_ok_iff {number : ℤ} :
    s.popNumber = .ok (number, t) ↔ ∃ top, s.main = top :: t.main ∧ s.alt = t.alt ∧
      ScriptNumber.decode ScriptNumber.operandLimit top = .ok number := by
  constructor
  · intro h
    obtain ⟨⟨top, s'⟩, hpop, h⟩ := bind_eq_ok_iff.mp h
    obtain ⟨number', hnumber, h⟩ := bind_eq_ok_iff.mp h
    cases h
    obtain ⟨hmain, halt⟩ := pop_eq_ok_iff.mp hpop
    exact ⟨top, hmain, halt, hnumber⟩
  · rintro ⟨top, hmain, halt, hnumber⟩
    obtain ⟨main, alt⟩ := s
    obtain rfl : main = top :: t.main := hmain
    obtain rfl : alt = t.alt := halt
    exact popNumber_cons hnumber

theorem popMany_eq_ok_iff {count : ℕ} :
    s.popMany count = .ok (elements, t) ↔
      elements.length = count ∧ s.main = elements.reverse ++ t.main ∧ s.alt = t.alt := by
  constructor
  · intro h
    unfold popMany at h
    split at h
    · cases h
    · next hcount =>
      cases h
      refine ⟨?_, ?_, rfl⟩
      · rw [List.length_reverse, List.length_take_of_le (Nat.le_of_not_lt hcount)]
      · rw [List.reverse_reverse, List.take_append_drop]
  · rintro ⟨rfl, hmain, halt⟩
    obtain ⟨main, alt⟩ := s
    obtain rfl : main = elements.reverse ++ t.main := hmain
    obtain rfl : alt = t.alt := halt
    exact popMany_reverse_append

/-- Takes as many elements off the main stack as the number on top says, which must not be negative
or above a limit. -/
def popCounted (s : Stack) (limit : ℤ) (outOfRange : ScriptError) :
    Except ScriptError (List Bytes × Stack) := do
  let (count, s) ← s.popNumber
  if count < 0 ∨ limit < count then .error outOfRange else s.popMany count.toNat

/-- What is wrong with a count, or with the elements that it counts. -/
inductive CountFault (limit : ℤ) (outOfRange : ScriptError) : List Bytes → ScriptError → Prop
  /-- There is no count. -/
  | missing : CountFault limit outOfRange [] .tooFewItems
  /-- The count is longer than a number may be. -/
  | long {count : Bytes} {below : List Bytes} (hcount : 4 < count.length) :
    CountFault limit outOfRange (count :: below) .numberOverflow
  /-- The count is negative or above the limit. -/
  | outOfRange {count : Bytes} {below : List Bytes} {number : ℤ}
    (hcount : ScriptNumber.decode ScriptNumber.operandLimit count = .ok number)
    (hrange : number < 0 ∨ limit < number) :
    CountFault limit outOfRange (count :: below) outOfRange
  /-- There are fewer elements below the count than it says. -/
  | few {count : Bytes} {below : List Bytes} {number : ℕ}
    (hcount : ScriptNumber.decode ScriptNumber.operandLimit count = .ok (number : ℤ))
    (hrange : (number : ℤ) ≤ limit) (hfew : below.length < number) :
    CountFault limit outOfRange (count :: below) .tooFewItems

theorem popCounted_cons {count : Bytes} {below alt : List Bytes}
    (hcount : ScriptNumber.decode ScriptNumber.operandLimit count = .ok (elements.length : ℤ))
    (hrange : (elements.length : ℤ) ≤ limit) :
    popCounted ⟨count :: (elements.reverse ++ below), alt⟩ limit outOfRange =
      .ok (elements, ⟨below, alt⟩) := by
  unfold popCounted
  rw [popNumber_cons hcount, ok_bind]
  simp only [if_neg (show ¬ ((elements.length : ℤ) < 0 ∨ limit < elements.length) by omega),
    Int.toNat_natCast]
  exact popMany_reverse_append

theorem popCounted_eq_ok_iff :
    s.popCounted limit outOfRange = .ok (elements, t) ↔
      ∃ count, s.main = count :: (elements.reverse ++ t.main) ∧ s.alt = t.alt ∧
        ScriptNumber.decode ScriptNumber.operandLimit count = .ok (elements.length : ℤ) ∧
        (elements.length : ℤ) ≤ limit := by
  constructor
  · intro h
    obtain ⟨⟨number, u⟩, hnumber, h⟩ := bind_eq_ok_iff.mp h
    obtain ⟨count, hmain, halt, hcount⟩ := popNumber_eq_ok_iff.mp hnumber
    simp only at h
    split_ifs at h with hrange
    obtain ⟨hlength, hbelow, halt'⟩ := popMany_eq_ok_iff.mp h
    have hnatural : (elements.length : ℤ) = number := by omega
    rw [← hnatural] at hcount
    exact ⟨count, by rw [hmain, hbelow], halt.trans halt', hcount, by omega⟩
  · rintro ⟨count, hmain, halt, hcount, hrange⟩
    obtain ⟨main, alt⟩ := s
    obtain rfl : main = count :: (elements.reverse ++ t.main) := hmain
    obtain rfl : alt = t.alt := halt
    exact popCounted_cons hcount hrange

theorem popCounted_of_fault (h : CountFault limit outOfRange s.main e) :
    s.popCounted limit outOfRange = .error e := by
  obtain ⟨main, alt⟩ := s
  cases h with
  | missing => rfl
  | @long count below hcount =>
    have hlong : ScriptNumber.decode ScriptNumber.operandLimit count = .error .numberOverflow :=
      ScriptNumber.decode_eq_error_iff.mpr ⟨hcount, rfl⟩
    unfold popCounted popNumber
    simp [pop, hlong]
  | outOfRange hcount hrange =>
    unfold popCounted
    rw [popNumber_cons hcount, ok_bind]
    exact if_pos hrange
  | @few count below number hcount hrange hfew =>
    unfold popCounted
    rw [popNumber_cons hcount, ok_bind]
    simp only [if_neg (show ¬ ((number : ℤ) < 0 ∨ limit < number) by omega), Int.toNat_natCast]
    exact if_pos hfew

/-- A count and its elements are there, or something is wrong with them. -/
theorem exists_popCounted_or_fault (s : Stack) (limit : ℤ) (outOfRange : ScriptError) :
    (∃ result, s.popCounted limit outOfRange = .ok result) ∨
      ∃ e, CountFault limit outOfRange s.main e := by
  obtain ⟨main, alt⟩ := s
  cases main with
  | nil => exact .inr ⟨_, .missing⟩
  | cons count below =>
    cases hcount : ScriptNumber.decode ScriptNumber.operandLimit count with
    | error e => exact .inr ⟨_, .long (ScriptNumber.decode_eq_error_iff.mp hcount).1⟩
    | ok number =>
      by_cases hrange : number < 0 ∨ limit < number
      · exact .inr ⟨_, .outOfRange hcount hrange⟩
      · obtain ⟨natural, rfl⟩ := Int.eq_ofNat_of_zero_le (by omega : 0 ≤ number)
        by_cases hfew : below.length < natural
        · exact .inr ⟨_, .few hcount (by omega) hfew⟩
        · have hlength : (below.take natural).reverse.length = natural := by
            rw [List.length_reverse, List.length_take_of_le (Nat.le_of_not_lt hfew)]
          refine .inl ⟨((below.take natural).reverse, ⟨below.drop natural, alt⟩),
            popCounted_eq_ok_iff.mpr ⟨count, ?_, rfl, by rw [hlength]; exact hcount, by omega⟩⟩
          rw [List.reverse_reverse, List.take_append_drop]

theorem popCounted_eq_error_iff :
    s.popCounted limit outOfRange = .error e ↔ CountFault limit outOfRange s.main e :=
  eq_error_iff_of_faults popCounted_of_fault (exists_popCounted_or_fault s limit outOfRange)

end Stack

namespace Operation

/-! ## The operands of a check -/

/-- The operands of a check of several signatures: public keys and signatures, both lowest first and
each with the element that counts them, and the one further element that the check takes. -/
structure MultisigOperands where
  keyCount : Bytes
  secs : List Bytes
  sigCount : Bytes
  sigs : List Bytes
  further : Bytes
  decode_keyCount :
    ScriptNumber.decode ScriptNumber.operandLimit keyCount = .ok (secs.length : ℤ)
  decode_sigCount :
    ScriptNumber.decode ScriptNumber.operandLimit sigCount = .ok (sigs.length : ℤ)
  length_secs : secs.length ≤ 20
  length_sigs : sigs.length ≤ secs.length

/-- The operands as they lie on the stack, top first. -/
def MultisigOperands.elements (operands : MultisigOperands) : List Bytes :=
  operands.keyCount :: (operands.secs.reverse ++ operands.sigCount ::
    (operands.sigs.reverse ++ [operands.further]))

theorem MultisigOperands.length_elements (operands : MultisigOperands) :
    operands.elements.length = operands.secs.length + operands.sigs.length + 3 := by
  simp only [elements, List.length_cons, List.length_append, List.length_reverse, List.length_nil]
  omega

theorem MultisigOperands.elements_append (operands : MultisigOperands) (rest : List Bytes) :
    operands.elements ++ rest = operands.keyCount :: (operands.secs.reverse ++
      operands.sigCount :: (operands.sigs.reverse ++ operands.further :: rest)) := by
  simp only [elements, List.cons_append, List.append_assoc, List.nil_append]

/-- What is wrong with a stack that does not hold the operands of a check. -/
inductive MultisigFault : List Bytes → ScriptError → Prop
  /-- The public keys are not there behind their count. -/
  | keys {main : List Bytes} {e : ScriptError} (h : Stack.CountFault 20 .pubkeyCount main e) :
    MultisigFault main e
  /-- The signatures, which are at most as many as the keys, are not there behind their count. -/
  | signatures {keyCount : Bytes} {secs below : List Bytes} {e : ScriptError}
    (hkeys : ScriptNumber.decode ScriptNumber.operandLimit keyCount = .ok (secs.length : ℤ))
    (hlimit : secs.length ≤ 20) (h : Stack.CountFault secs.length .sigCount below e) :
    MultisigFault (keyCount :: (secs.reverse ++ below)) e
  /-- There is no further element. -/
  | further {keyCount sigCount : Bytes} {secs sigs : List Bytes}
    (hkeys : ScriptNumber.decode ScriptNumber.operandLimit keyCount = .ok (secs.length : ℤ))
    (hlimit : secs.length ≤ 20)
    (hsigs : ScriptNumber.decode ScriptNumber.operandLimit sigCount = .ok (sigs.length : ℤ))
    (hle : sigs.length ≤ secs.length) :
    MultisigFault (keyCount :: (secs.reverse ++ sigCount :: sigs.reverse)) .tooFewItems

variable {s t : Stack} {secs sigs : List Bytes} {e : ScriptError}

/-- The operands are two lists behind their counts and one further element. -/
theorem multisigOperands_eq (s : Stack) : multisigOperands s = do
    let (secs, s) ← s.popCounted keyLimit .pubkeyCount
    let (sigs, s) ← s.popCounted secs.length .sigCount
    let (_, s) ← s.pop
    return ((secs, sigs), s) := by
  unfold multisigOperands Stack.popCounted
  rw [bind_assoc]
  refine bind_congr fun ⟨keyCount, s⟩ => ?_
  dsimp only
  split_ifs with hkeys
  · rfl
  · cases hsecs : s.popMany keyCount.toNat with
    | error e => rfl
    | ok result =>
      obtain ⟨secs, s⟩ := result
      -- the limit of the signatures is the number that was read, and as many keys were taken
      have hlength := (Stack.popMany_eq_ok_iff.mp hsecs).1
      have hcount : (secs.length : ℤ) = keyCount := by omega
      rw [ok_bind, ok_bind, hcount, bind_assoc]
      refine bind_congr fun ⟨sigCount, s⟩ => ?_
      dsimp only
      split_ifs <;> rfl

theorem multisigOperands_eq_ok_iff :
    multisigOperands s = .ok ((secs, sigs), t) ↔ ∃ operands : MultisigOperands,
      operands.secs = secs ∧ operands.sigs = sigs ∧ s.main = operands.elements ++ t.main ∧
        s.alt = t.alt := by
  constructor
  · intro h
    rw [multisigOperands_eq] at h
    obtain ⟨⟨secs, u⟩, hsecs, h⟩ := bind_eq_ok_iff.mp h
    obtain ⟨⟨sigs, v⟩, hsigs, h⟩ := bind_eq_ok_iff.mp h
    obtain ⟨⟨further, w⟩, hfurther, h⟩ := bind_eq_ok_iff.mp h
    cases h
    obtain ⟨keyCount, hmain, halt, hkeyCount, hlimit⟩ := Stack.popCounted_eq_ok_iff.mp hsecs
    obtain ⟨sigCount, hmain', halt', hsigCount, hle⟩ := Stack.popCounted_eq_ok_iff.mp hsigs
    obtain ⟨hmain'', halt''⟩ := Stack.pop_eq_ok_iff.mp hfurther
    unfold keyLimit at hlimit
    refine ⟨⟨keyCount, secs, sigCount, sigs, further, hkeyCount, hsigCount, by omega, by omega⟩,
      rfl, rfl, ?_, halt.trans (halt'.trans halt'')⟩
    rw [MultisigOperands.elements_append, hmain, hmain', hmain'']
  · rintro ⟨operands, rfl, rfl, hmain, halt⟩
    obtain ⟨main, alt⟩ := s
    obtain rfl : main = operands.elements ++ t.main := hmain
    obtain rfl : alt = t.alt := halt
    rw [operands.elements_append]
    exact multisigOperands_of_decode operands.decode_keyCount operands.decode_sigCount
      operands.length_secs operands.length_sigs

theorem multisigOperands_of_fault (h : MultisigFault s.main e) :
    multisigOperands s = .error e := by
  obtain ⟨main, alt⟩ := s
  rw [multisigOperands_eq]
  cases h with
  | keys h =>
    have hsecs : Stack.popCounted ⟨main, alt⟩ keyLimit .pubkeyCount = .error e :=
      Stack.popCounted_of_fault h
    rw [hsecs, error_bind]
  | @signatures keyCount secs below _ hkeys hlimit h =>
    have hsigs : Stack.popCounted ⟨below, alt⟩ secs.length .sigCount = .error e :=
      Stack.popCounted_of_fault h
    rw [Stack.popCounted_cons hkeys (by unfold keyLimit; omega), ok_bind]
    dsimp only
    rw [hsigs, error_bind]
  | @further keyCount sigCount secs sigs hkeys hlimit hsigs hle =>
    have hnone : Stack.popCounted ⟨sigCount :: (sigs.reverse ++ []), alt⟩ secs.length .sigCount =
        .ok (sigs, ⟨[], alt⟩) := Stack.popCounted_cons hsigs (by omega)
    rw [List.append_nil] at hnone
    rw [Stack.popCounted_cons hkeys (by unfold keyLimit; omega), ok_bind]
    dsimp only
    rw [hnone]
    rfl

/-- The operands are there, or something is wrong. -/
theorem exists_operands_or_fault (s : Stack) :
    (∃ result, multisigOperands s = .ok result) ∨ ∃ e, MultisigFault s.main e := by
  rw [multisigOperands_eq]
  cases hsecs : s.popCounted keyLimit .pubkeyCount with
  | error e => exact .inr ⟨e, .keys (Stack.popCounted_eq_error_iff.mp hsecs)⟩
  | ok result =>
    obtain ⟨secs, t⟩ := result
    obtain ⟨keyCount, hmain, -, hkeyCount, hlimit⟩ := Stack.popCounted_eq_ok_iff.mp hsecs
    unfold keyLimit at hlimit
    rw [ok_bind]
    dsimp only
    cases hsigs : t.popCounted secs.length .sigCount with
    | error e =>
      rw [hmain]
      exact .inr
        ⟨e, .signatures hkeyCount (by omega) (Stack.popCounted_eq_error_iff.mp hsigs)⟩
    | ok result =>
      obtain ⟨sigs, main, alt⟩ := result
      obtain ⟨sigCount, hmain', -, hsigCount, hle⟩ := Stack.popCounted_eq_ok_iff.mp hsigs
      rw [ok_bind]
      cases main with
      | nil =>
        right
        rw [hmain, hmain', List.append_nil]
        exact ⟨_, .further hkeyCount (by omega) hsigCount (by omega)⟩
      | cons further rest => exact .inl ⟨_, rfl⟩

theorem multisigOperands_eq_error_iff :
    multisigOperands s = .error e ↔ MultisigFault s.main e :=
  eq_error_iff_of_faults multisigOperands_of_fault (exists_operands_or_fault s)

/-! ## The truth value -/

/-- Operands that write keys and signatures are signed if these can be matched. -/
theorem areSigned_eq_matchSignatures {sigHash : ℕ} {keys : List Point}
    {signatures : List Signature}
    (hkeys : List.Forall₂ (fun sec key => Point.ofSec sec = .ok key) secs keys)
    (hsigs : List.Forall₂ (fun sig signature => sig ≠ [] ∧
      Signature.ofDer sig.dropLast = .ok signature) sigs signatures) :
    areSigned sigHash secs sigs = matchSignatures sigHash signatures keys := by
  unfold areSigned
  rw [readMultisig?_eq_some_iff.mpr ⟨hkeys, hsigs⟩]

/-- One operand that writes nothing is enough for a "no". -/
theorem areSigned_eq_false {sigHash : ℕ}
    (h : (∃ sec ∈ secs, ∀ key, Point.ofSec sec ≠ .ok key) ∨
      ∃ sig ∈ sigs, ∀ signature, sig = [] ∨ Signature.ofDer sig.dropLast ≠ .ok signature) :
    areSigned sigHash secs sigs = false := by
  rw [Bool.eq_false_iff]
  intro hsigned
  obtain ⟨keys, signatures, owners, hkeys, hsigs, -, -⟩ := areSigned_iff.mp hsigned
  rcases h with ⟨sec, hsec, hnone⟩ | ⟨sig, hsig, hnone⟩
  · obtain ⟨key, hkey⟩ := exists_of_forall₂ hkeys sec hsec
    exact hnone key hkey
  · obtain ⟨signature, hne, hder⟩ := exists_of_forall₂ hsigs sig hsig
    exact (hnone signature).elim hne fun h => h hder

/-- On stacks within the limits, a truth value takes the place of the operands. -/
theorem apply_checkMultisig_eq {ctx : Context} {rest : List Bytes} (h : s.WithinLimits)
    (operands : MultisigOperands) (hmain : s.main = operands.elements ++ rest) :
    checkMultisig.apply ctx s = .ok ⟨ScriptNumber.ofBool
      (areSigned ctx.sigHash operands.secs operands.sigs) :: rest, s.alt⟩ := by
  obtain ⟨main, alt⟩ := s
  obtain rfl : main = operands.elements ++ rest := hmain
  have hroom : Stack.size ⟨rest, alt⟩ < Stack.sizeLimit := by
    have hheight := h.height
    simp only [Stack.size, List.length_append, operands.length_elements] at hheight ⊢
    omega
  rw [operands.elements_append]
  exact apply_checkMultisig operands.decode_keyCount operands.decode_sigCount
    operands.length_secs operands.length_sigs hroom

theorem apply_checkMultisig_eq_error_iff {ctx : Context} (h : s.WithinLimits) :
    checkMultisig.apply ctx s = .error e ↔ MultisigFault s.main e := by
  rw [← multisigOperands_eq_error_iff]
  cases hoperands : multisigOperands s with
  | error e' =>
    unfold apply
    rw [hoperands, error_bind, Except.error.injEq, Except.error.injEq]
  | ok result =>
    obtain ⟨⟨secs, sigs⟩, t⟩ := result
    obtain ⟨operands, -, -, hmain, -⟩ := multisigOperands_eq_ok_iff.mp hoperands
    rw [apply_checkMultisig_eq h operands hmain]
    simp

end Operation

namespace Opcode

/-- On stacks within the limits, of which the main one holds up to 20 public keys and not more
signatures, each behind their count, and one further element, the check takes exactly these off and
leaves a truth value. If all of them can be read, the value is true exactly if the signatures can be
assigned to keys, both in the order in which they were pushed, so that each verifies under its key.
If one of them cannot be read, it is false. On all other stacks the check fails, and the error tells
what is missing or out of range. -/
theorem execute_checkMultisig (ctx : Context) {s : Stack} (h : s.WithinLimits) :
    (∀ (operands : Operation.MultisigOperands) (rest : List Bytes),
      s.main = operands.elements ++ rest →
      operands.elements.length = operands.secs.length + operands.sigs.length + 3 ∧
      (∀ (keys : List Point) (signatures : List Signature),
        List.Forall₂ (fun sec key => Point.ofSec sec = .ok key) operands.secs keys →
        List.Forall₂ (fun sig signature => sig ≠ [] ∧
          Signature.ofDer sig.dropLast = .ok signature) operands.sigs signatures →
        ∃ valid, execute ctx checkMultisig s =
            .ok ⟨ScriptNumber.ofBool valid :: rest, s.alt⟩ ∧
          (valid = true ↔ ∃ owner : Fin signatures.length → Fin keys.length, StrictMono owner ∧
            ∀ i, (signatures.get i).verifies ctx.sigHash (keys.get (owner i)) = true)) ∧
      ((∃ sec ∈ operands.secs, ∀ key, Point.ofSec sec ≠ .ok key) ∨
        (∃ sig ∈ operands.sigs, ∀ signature,
          sig = [] ∨ Signature.ofDer sig.dropLast ≠ .ok signature) →
        execute ctx checkMultisig s = .ok ⟨ScriptNumber.ofBool false :: rest, s.alt⟩)) ∧
    ∀ e, execute ctx checkMultisig s = .error e ↔ Operation.MultisigFault s.main e := by
  have hexecute : execute ctx checkMultisig s = Operation.checkMultisig.apply ctx s := rfl
  rw [hexecute]
  refine ⟨fun operands rest hmain => ?_, fun e => Operation.apply_checkMultisig_eq_error_iff h⟩
  rw [Operation.apply_checkMultisig_eq h operands hmain]
  refine ⟨operands.length_elements, ?_, fun hnone => ?_⟩
  · intro keys signatures hkeys hsigs
    refine ⟨_, rfl, ?_⟩
    rw [Operation.areSigned_eq_matchSignatures hkeys hsigs, Operation.matchSignatures_iff]
    exact exists_owners_iff
  · rw [Operation.areSigned_eq_false hnone]

/-! One signature for two keys, which are the same. -/

open Transaction (generatorSec generatorSignature generatorSignatureBytes fromGeneratorHash
  verifies_generatorSignature)

def oneOfTwo : Operation.MultisigOperands where
  keyCount := [2]
  secs := [generatorSec, generatorSec]
  sigCount := [1]
  sigs := [generatorSignatureBytes]
  further := []
  decode_keyCount := eq_ok_of_toOption (by decide)
  decode_sigCount := eq_ok_of_toOption (by decide)
  length_secs := by decide
  length_sigs := by decide

/-- The signature may be assigned to either key. Without the operands, the element that was below
them is a count of keys that are not there. -/
theorem execute_checkMultisig_oneOfTwo :
    Stack.WithinLimits ⟨oneOfTwo.elements ++ [[7]], []⟩ ∧ Stack.WithinLimits ⟨[[7]], []⟩ ∧
      execute (.plain fromGeneratorHash) checkMultisig ⟨oneOfTwo.elements ++ [[7]], []⟩ =
        .ok ⟨[[1], [7]], []⟩ ∧
      execute (.plain fromGeneratorHash) checkMultisig ⟨[[7]], []⟩ = .error .tooFewItems := by
  have hlimits : Stack.WithinLimits ⟨oneOfTwo.elements ++ [[7]], []⟩ :=
    ⟨by decide, by decide +kernel, by simp⟩
  have hlimits' : Stack.WithinLimits ⟨[[7]], []⟩ := ⟨by decide, by decide, by simp⟩
  have hsec : Point.ofSec generatorSec = .ok Secp256k1.generator :=
    eq_ok_of_toOption (by decide +kernel)
  have hder : Signature.ofDer generatorSignatureBytes.dropLast = .ok generatorSignature :=
    eq_ok_of_toOption (by decide +kernel)
  obtain ⟨-, hread, -⟩ :=
    (execute_checkMultisig (.plain fromGeneratorHash) hlimits).1 oneOfTwo [[7]] rfl
  obtain ⟨valid, hexecute, hvalid⟩ := hread [Secp256k1.generator, Secp256k1.generator]
    [generatorSignature] (.cons hsec (.cons hsec .nil)) (.cons ⟨by decide, hder⟩ .nil)
  have hone : Subsingleton (Fin [generatorSignature].length) :=
    inferInstanceAs (Subsingleton (Fin 1))
  have htrue : valid = true := by
    refine hvalid.mpr ⟨fun _ => 1, Subsingleton.strictMono _, fun i => ?_⟩
    obtain rfl : i = ⟨0, Nat.one_pos⟩ := Subsingleton.elim _ _
    exact verifies_generatorSignature
  have hseven : ScriptNumber.decode ScriptNumber.operandLimit [7] = .ok ((7 : ℕ) : ℤ) :=
    eq_ok_of_toOption (by decide)
  refine ⟨hlimits, hlimits', ?_, ?_⟩
  · rw [hexecute, htrue, ScriptNumber.ofBool_true]
  · exact ((execute_checkMultisig (.plain fromGeneratorHash) hlimits').2 _).mpr
      (.keys (.few hseven (by decide) (by decide)))

end Opcode

end CoinSpend
