import CoinSpend.Proofs.Field.Laws
import Mathlib

/-!
# Field elements without their bounds

A field element can be kept as two natural numbers of which nothing is known, and calculated with on
natural numbers alone. A calculation then stops where a number is subtracted from a smaller one or
where something is taken modulo zero. It never does, and its results are those of the elements that
carry their bounds: a sum, a product and a power are reduced, and the modulus is never touched.

Results:
* `RawElement.floor_eq`: an integer is reduced by way of remainders that may be negative.
* `raw_create`, `raw_unary`, `raw_binary`: one operation.
* `RawElement.run_eq`: operations one after another, on elements that earlier ones gave.
-/

namespace CoinSpend

/-! ## Operations -/

/-- The operations on one element that give an element. -/
inductive UnaryFieldOperation where
  | sibling (num : ℕ)
  | zeroOf
  | scale (factor : ℕ)
  | powNat (exponent : ℕ)
  | pow (exponent : ℤ)
  | inverse
deriving DecidableEq, Repr

/-- One step of a calculation. The operands are given by their place among the elements that the
steps before it gave. -/
inductive Calculation where
  | create (num modulus : ℕ)
  | unary (operation : UnaryFieldOperation) (operand : ℕ)
  | binary (operation : FieldOperation) (left right : ℕ)
deriving DecidableEq, Repr

/-- Puts the result of an operation behind the elements, if there is one. -/
def Calculation.keep {α : Type} (elements : List α) : Except Error α → List α
  | .error _ => elements
  | .ok x => elements ++ [x]

namespace FieldElement

/-- The operation on an element. -/
def unary (x : FieldElement) : UnaryFieldOperation → Except Error FieldElement
  | .sibling num => x.sibling num
  | .zeroOf => .ok x.zeroOf
  | .scale factor => .ok (x.scale factor)
  | .powNat exponent => .ok (x.powNat exponent)
  | .pow exponent => .ok (x.pow exponent)
  | .inverse => x.inverse

/-- The elements behind a step. A step whose operands are not there gives nothing. -/
def perform (elements : List FieldElement) : Calculation → List FieldElement
  | .create num modulus => Calculation.keep elements (ofNat num modulus)
  | .unary operation operand =>
    match elements[operand]? with
    | none => elements
    | some x => Calculation.keep elements (x.unary operation)
  | .binary operation left right =>
    match elements[left]?, elements[right]? with
    | some x, some y => Calculation.keep elements (x.binary y operation)
    | _, _ => elements

/-- The elements that steps one after another give. -/
def calculate (steps : List Calculation) : List FieldElement := steps.foldl perform []

end FieldElement

/-! ## Two numbers -/

/-- A residue and a modulus of which nothing is known. Model of `FieldElement`. -/
structure RawElement where
  num : ℕ
  modulus : ℕ
deriving DecidableEq, Repr

namespace RawElement

/-- What stops a calculation with natural numbers. -/
inductive Fault where
  /-- The result would be below zero. -/
  | underflow
  /-- There is no remainder modulo zero. -/
  | zeroModulus
deriving DecidableEq, Repr

/-- The difference of two natural numbers. -/
def minus (a b : ℕ) : Except Fault ℕ := if a < b then .error .underflow else .ok (a - b)

/-- The remainder of a natural number. -/
def modulo (a modulus : ℕ) : Except Fault ℕ :=
  if modulus = 0 then .error .zeroModulus else .ok (a % modulus)

/-- The remainder of a power. -/
def power (base exponent modulus : ℕ) : Except Fault ℕ :=
  if modulus = 0 then .error .zeroModulus else .ok (Modular.powMod base exponent modulus)

/-- The residue of an integer. Remainders have the sign of what is divided, so the modulus is added
to the first one, and the second one is to be a natural number. Model of `mod_floor`. -/
def floor (value : ℤ) (modulus : ℕ) : Except Fault ℕ :=
  if modulus = 0 then .error .zeroModulus
  else
    let residue := (value.tmod modulus + modulus).tmod modulus
    if residue < 0 then .error .underflow else .ok residue.toNat

/-- The inverse of a number modulo a prime, as its power to `modulus - 2`. Model of `mod_inverse`.
-/
def inverseMod (value modulus : ℕ) : Except Fault (Option ℕ) := do
  let reduced ← modulo value modulus
  if reduced = 0 then return none
  else
    let exponent ← minus modulus 2
    return some (← power reduced exponent modulus)

/-- The element with a residue and a modulus, which are checked. The refusal of a residue tells the
greatest one. Model of `FieldElement.with_prime`. -/
def create (num modulus : ℕ) : Except Fault (Except Error RawElement) :=
  if modulus ≤ 1 then .ok (.error (.modulusTooSmall modulus))
  else if modulus ≤ num then do
    let _greatest ← minus modulus 1
    return .error (.residueTooLarge num modulus)
  else .ok (.ok ⟨num, modulus⟩)

/-- The residue of a value, if the elements are of one field. The refusal models
`FieldElement.check_same_field`. -/
def combine (operation : FieldOperation) (x y : RawElement) (value : Except Fault ℕ) :
    Except Fault (Except Error RawElement) :=
  if x.modulus = y.modulus then do
    let num ← modulo (← value) x.modulus
    return .ok ⟨num, x.modulus⟩
  else .ok (.error (.differentFields operation x.modulus y.modulus))

/-- The inverse of an element. Model of `FieldElement.inverse`. -/
def inverse (x : RawElement) : Except Fault (Except Error RawElement) := do
  match ← inverseMod x.num x.modulus with
  | none => return .error .zeroInverse
  | some num => return .ok ⟨num, x.modulus⟩

/-- The power with an exponent that is first reduced modulo `modulus - 1`. Model of
`FieldElement.pow` and `FieldElement.pow_u`. -/
def powReduced (x : RawElement) (reduce : ℕ → Except Fault ℕ) :
    Except Fault (Except Error RawElement) := do
  let order ← minus x.modulus 1
  let num ← power x.num (← reduce order) x.modulus
  return .ok ⟨num, x.modulus⟩

/-- The operation on an element. -/
def unary (x : RawElement) : UnaryFieldOperation → Except Fault (Except Error RawElement)
  | .sibling num => create num x.modulus
  | .zeroOf => .ok (.ok ⟨0, x.modulus⟩)
  | .scale factor => do
    let num ← modulo (x.num * factor) x.modulus
    return .ok ⟨num, x.modulus⟩
  | .powNat exponent => x.powReduced (modulo exponent)
  | .pow exponent => x.powReduced (floor exponent)
  | .inverse => x.inverse

/-- The operation on two elements. -/
def binary (x y : RawElement) : FieldOperation → Except Fault (Except Error RawElement)
  | .add => combine .add x y (.ok (x.num + y.num))
  | .subtract => combine .subtract x y (minus (x.num + x.modulus) y.num)
  | .multiply => combine .multiply x y (.ok (x.num * y.num))
  | .divide =>
    if x.modulus = y.modulus then do
      match ← y.inverse with
      | .error e => return .error e
      | .ok i => combine .multiply x i (.ok (x.num * i.num))
    else .ok (.error (.differentFields .divide x.modulus y.modulus))

/-- The elements behind a step. -/
def perform (elements : List RawElement) : Calculation → Except Fault (List RawElement)
  | .create num modulus => do return Calculation.keep elements (← create num modulus)
  | .unary operation operand =>
    match elements[operand]? with
    | none => .ok elements
    | some x => do return Calculation.keep elements (← x.unary operation)
  | .binary operation left right =>
    match elements[left]?, elements[right]? with
    | some x, some y => do return Calculation.keep elements (← x.binary y operation)
    | _, _ => .ok elements

/-- The elements that steps one after another give. -/
def run (steps : List Calculation) : Except Fault (List RawElement) := steps.foldlM perform []

/-! ## Natural numbers -/

theorem minus_eq {a b : ℕ} (h : b ≤ a) : minus a b = .ok (a - b) := if_neg (Nat.not_lt.mpr h)

theorem modulo_eq {modulus : ℕ} (h : 0 < modulus) (a : ℕ) : modulo a modulus = .ok (a % modulus) :=
  if_neg h.ne'

theorem power_eq {modulus : ℕ} (h : 0 < modulus) (base exponent : ℕ) :
    power base exponent modulus = .ok (Modular.powMod base exponent modulus) :=
  if_neg h.ne'

/-- The remainder behind the addition of the modulus is the residue of the integer. -/
theorem floor_eq {modulus : ℕ} (h : 0 < modulus) (value : ℤ) :
    floor value modulus = .ok (Modular.floorMod value modulus) := by
  have hpos : (0 : ℤ) < modulus := by omega
  have hlower : -(modulus : ℤ) < value.tmod modulus := Int.lt_tmod_of_pos value hpos
  have hresidue : (value.tmod modulus + modulus).tmod modulus = value % modulus := by
    rw [Int.tmod_eq_emod_of_nonneg (by omega), Int.add_emod_right, Int.tmod_def,
      Int.sub_mul_emod_self_left]
  have hnonneg : 0 ≤ value % (modulus : ℤ) := Int.emod_nonneg value hpos.ne'
  unfold floor
  simp only [hresidue]
  rw [if_neg h.ne', if_neg hnonneg.not_gt]
  rfl

theorem inverseMod_eq {modulus : ℕ} (h : 1 < modulus) (value : ℕ) :
    inverseMod value modulus = .ok (Modular.inverseMod? value modulus) := by
  unfold inverseMod Modular.inverseMod?
  rw [modulo_eq (by omega), ok_bind]
  split
  · rfl
  · rw [minus_eq h, ok_bind, power_eq (by omega), ok_bind]
    rfl

end RawElement

/-! ## Elements within their bounds -/

namespace FieldElement

/-- The two numbers of an element. -/
def raw (x : FieldElement) : RawElement := ⟨x.num, x.modulus⟩

@[simp] theorem num_raw (x : FieldElement) : x.raw.num = x.num := rfl

@[simp] theorem modulus_raw (x : FieldElement) : x.raw.modulus = x.modulus := rfl

/-- A number that is reduced may be kept as it is. -/
theorem raw_withNum {x : FieldElement} {num : ℕ} (h : num < x.modulus) :
    (x.withNum num).raw = ⟨num, x.modulus⟩ := by
  rw [raw, num_withNum, modulus_withNum, Nat.mod_eq_of_lt h]

theorem raw_create (num modulus : ℕ) :
    RawElement.create num modulus = .ok ((ofNat num modulus).map raw) := by
  unfold RawElement.create ofNat
  by_cases hmodulus : 1 < modulus
  · rw [if_neg (by omega), dif_pos hmodulus]
    by_cases hnum : num < modulus
    · rw [if_neg (by omega), dif_pos hnum]
      rfl
    · rw [if_pos (by omega), dif_neg hnum, RawElement.minus_eq (by omega)]
      rfl
  · rw [if_pos (by omega), dif_neg hmodulus]
    rfl

theorem raw_combine (operation : FieldOperation) (x y : FieldElement) (value : ℕ) :
    RawElement.combine operation x.raw y.raw (.ok value) =
      .ok ((combine operation x y value).map raw) := by
  unfold RawElement.combine combine
  rw [modulus_raw, modulus_raw]
  by_cases h : x.modulus = y.modulus
  · rw [if_pos h, if_pos h, ok_bind, RawElement.modulo_eq x.modulus_pos]
    rfl
  · rw [if_neg h, if_neg h]
    rfl

theorem raw_inverse (x : FieldElement) : x.raw.inverse = .ok (x.inverse.map raw) := by
  unfold RawElement.inverse inverse
  rw [num_raw, modulus_raw, RawElement.inverseMod_eq x.one_lt_modulus, ok_bind]
  cases h : Modular.inverseMod? x.num x.modulus with
  | none => rfl
  | some value =>
    have hlt : value < x.modulus := by
      unfold Modular.inverseMod? at h
      split at h
      · cases h
      · cases h
        exact Modular.powMod_lt x.modulus_pos
    exact congrArg (fun i => Except.ok (Except.ok i)) (raw_withNum hlt).symm

theorem raw_powReduced (x : FieldElement) {reduce : ℕ → Except RawElement.Fault ℕ} {exponent : ℕ}
    (h : reduce (x.modulus - 1) = .ok exponent) :
    x.raw.powReduced reduce =
      .ok (.ok (x.withNum (Modular.powMod x.num exponent x.modulus)).raw) := by
  unfold RawElement.powReduced
  rw [num_raw, modulus_raw, RawElement.minus_eq x.modulus_pos, ok_bind, h, ok_bind,
    RawElement.power_eq x.modulus_pos, ok_bind, raw_withNum (Modular.powMod_lt x.modulus_pos)]
  rfl

/-- An operation on the numbers of an element gives the numbers of its result. -/
theorem raw_unary (x : FieldElement) (operation : UnaryFieldOperation) :
    x.raw.unary operation = .ok ((x.unary operation).map raw) := by
  have horder : 0 < x.modulus - 1 := Nat.sub_pos_of_lt x.one_lt_modulus
  cases operation with
  | sibling num => exact raw_create num x.modulus
  | zeroOf =>
    rw [unary, zeroOf, Except.map, raw_withNum x.modulus_pos]
    rfl
  | scale factor =>
    rw [RawElement.unary, num_raw, modulus_raw, RawElement.modulo_eq x.modulus_pos]
    rfl
  | powNat exponent => exact x.raw_powReduced (RawElement.modulo_eq horder exponent)
  | pow exponent => exact x.raw_powReduced (RawElement.floor_eq horder exponent)
  | inverse => exact x.raw_inverse

theorem raw_binary (x y : FieldElement) (operation : FieldOperation) :
    x.raw.binary y.raw operation = .ok ((x.binary y operation).map raw) := by
  cases operation with
  | add => exact raw_combine .add x y _
  | subtract =>
    by_cases h : x.modulus = y.modulus
    · have hle : y.num ≤ x.num + x.modulus := by
        have := y.num_lt_modulus
        omega
      rw [RawElement.binary, num_raw, modulus_raw, num_raw, RawElement.minus_eq hle]
      exact raw_combine .subtract x y _
    · rw [RawElement.binary, RawElement.combine, modulus_raw, modulus_raw, if_neg h,
        binary_of_ne h]
      rfl
  | multiply => exact raw_combine .multiply x y _
  | divide =>
    rw [RawElement.binary, modulus_raw, modulus_raw]
    by_cases h : x.modulus = y.modulus
    · rw [if_pos h, raw_inverse, ok_bind, binary, div, if_pos h]
      cases hi : y.inverse with
      | error e => rfl
      | ok i => exact raw_combine .multiply x i _
    · rw [if_neg h, binary_of_ne h]
      rfl

/-! ## Steps one after another -/

theorem keep_map_raw (elements : List FieldElement) (result : Except Error FieldElement) :
    Calculation.keep (elements.map raw) (result.map raw) =
      (Calculation.keep elements result).map raw := by
  cases result with
  | error e => rfl
  | ok x => simp [Calculation.keep, Except.map]

/-- A step on numbers gives the numbers of the elements behind it. -/
theorem raw_perform (elements : List FieldElement) (step : Calculation) :
    RawElement.perform (elements.map raw) step = .ok ((perform elements step).map raw) := by
  cases step with
  | create num modulus =>
    rw [RawElement.perform, raw_create, ok_bind, keep_map_raw]
    rfl
  | unary operation operand =>
    rw [RawElement.perform, perform, List.getElem?_map]
    cases elements[operand]? with
    | none => rfl
    | some x =>
      simp only [Option.map_some]
      rw [raw_unary, ok_bind, keep_map_raw]
      rfl
  | binary operation left right =>
    rw [RawElement.perform, perform, List.getElem?_map, List.getElem?_map]
    cases elements[left]? with
    | none => rfl
    | some x =>
      cases elements[right]? with
      | none => rfl
      | some y =>
        simp only [Option.map_some]
        rw [raw_binary, ok_bind, keep_map_raw]
        rfl

/-- Steps on numbers give the numbers of the elements that they give, and are never stopped. -/
theorem raw_calculate (steps : List Calculation) :
    RawElement.run steps = .ok ((calculate steps).map raw) := by
  have hsteps : ∀ elements : List FieldElement,
      steps.foldlM RawElement.perform (elements.map raw) =
        .ok ((steps.foldl perform elements).map raw) := by
    induction steps with
    | nil => exact fun _ => rfl
    | cons step steps ih =>
      intro elements
      rw [List.foldlM_cons, raw_perform, ok_bind, ih, List.foldl_cons]
  exact hsteps []

end FieldElement

end CoinSpend
